import DeliveryQueue.Proofs.Lodging

/-!
Opening a store in its data directory. Where a layout is recorded, opening fails or finds what each
bucket held (`DataDirectory.Keeps.open`); a store that is opened to look at it finds the same.
-/
namespace DeliveryQueue

open DataDirectory

variable {directory : DataDirectory} {toml : Toml.Library} {disk : Disk}
variable {place index count : Nat} {log : List Bytes}

/-! Journals -/

namespace FileJournal

/-- The journal of an index has in hand what is in its file. -/
structure Shown (journal : FileJournal) (directory : DataDirectory) (disk : Disk) (index : Nat)
    (log : List Bytes) : Prop where
  path : journal.path = directory.journalPath index
  recovered : journal.recovered = some log
  read : disk.readBytes (directory.journalPath index) = .ok (Record.file log)

theorem Fresh.shown {journal : FileJournal} (fresh : journal.Fresh directory disk index log) :
    journal.Shown directory disk index log where
  path := fresh.path
  recovered := fresh.recovered
  read := by
    obtain ⟨found, name, leads⟩ := fresh.holds.leads
    rw [← fresh.path, Disk.readBytes, leads.openFile, ← fresh.holds.content]
    rfl

theorem inspect_file (short : Record.Short log) :
    ∃ scan, inspect (Record.file log) = .ok scan ∧ scan.batches = log := by
  have kept : Record.headerLength ≤ (Record.file log).length := by
    rw [Record.length_file]
    exact Nat.le_add_right _ _
  have whole : Record.within ((Record.file log).length - Record.headerLength) log = log := by
    rw [Record.length_file, Nat.add_sub_cancel_left]
    exact Record.within_of_length_le 1 (Nat.le_refl _)
  have inspected := inspect_take short kept
  rw [List.take_length, whole] at inspected
  exact ⟨_, inspected, rfl⟩

/-- A journal that is opened to read it holds what is in its file. -/
theorem shown_of_openReadOnly (there : directory.place? disk = some place)
    (files : disk.Files place index log) {journal : FileJournal}
    (opened : openReadOnly disk (directory.journalPath index) = .ok journal) :
    journal.Shown directory disk index log := by
  obtain ⟨scan, inspected, batches⟩ := inspect_file files.short
  unfold openReadOnly at opened
  split at opened
  · cases opened
  · cases opened
  · rename_i found name number resolved
    obtain ⟨its, rfl, node⟩ := resolve_join resolved
    cases its.symm.trans there
    have content := files.content node
    have read : disk.readBytes (directory.journalPath index) = .ok (Record.file log) := by
      rw [Disk.readBytes, Disk.openFile, Disk.findFile, resolved, ← content]
      rfl
    have filled : (Record.file log).isEmpty = false := by
      rw [List.isEmpty_eq_false_iff, ← List.length_pos_iff, Record.length_file]
      exact Nat.lt_of_lt_of_le (by decide) (Nat.le_add_right _ _)
    simp only [content, filled, inspected, Bool.false_eq_true, if_false, Functor.map, Except.map]
      at opened
    cases opened
    exact ⟨rfl, congrArg some batches, read⟩

end FileJournal

namespace Store

open FileJournal

/-- The journals of some indices open one after the other, and nothing else is touched. -/
theorem openJournals_of_files (policy : FlushPolicy) {logs : Nat → List Bytes} (sound : disk.Sound)
    (apart : disk.Apart place) (there : directory.place? disk = some place)
    (files : ∀ i, index ≤ i → i < index + count → disk.Files place i (logs i)) :
    ∃ answer left, openJournals policy directory disk index count = (answer, left) ∧
      disk.Aside place ((List.range' index count).map journalName) left ∧
      (∀ i, index ≤ i → i < index + count → left.Files place i (logs i)) ∧
      ∀ journals : List Journal, answer = .ok journals → journals.length = count ∧
        ∀ k journal, journals[k]? = some journal → ∃ log : FileJournal, journal = .file log ∧
          log.Fresh directory left (index + k) (logs (index + k)) := by
  induction count generalizing disk index with
  | zero =>
    refine ⟨_, _, rfl, .refl sound apart _, files, ?_⟩
    rintro journals ⟨⟩
    exact ⟨rfl, fun k journal found => by cases found⟩
  | succ count ih =>
    have range : List.range' index (count + 1) = index :: List.range' (index + 1) count := rfl
    rcases openWith_of_files sound apart there (files index (Nat.le_refl _) (by omega)) policy with
      ⟨fault, failed⟩ | ⟨journal, middle, opened, first, fresh⟩
    · refine ⟨.error fault, disk, ?_, .refl sound apart _, files, ?_⟩
      · rw [openJournals, failed]
      · rintro journals ⟨⟩
    · have still := place?_of_alike first.alike there
      have others (i : Nat) (above : index + 1 ≤ i) (below : i < index + 1 + count) :
          middle.Files place i (logs i) := by
        refine (files i (by omega) (by omega)).aside first ?_
        have differs : journalName i ≠ journalName index := fun same => by
          have := journalName_inj same
          omega
        simpa using differs
      obtain ⟨answer, left, rest, second, filesToo, opens⟩ :=
        ih first.sound first.apart still others
      have foreign : journalName index ∉ (List.range' (index + 1) count).map journalName := by
        intro member
        obtain ⟨i, inside, same⟩ := List.mem_map.mp member
        have := journalName_inj same
        simp only [List.mem_range'_1] at inside
        omega
      have held := fresh.holds.aside fresh.path still second foreign
      have whole : disk.Aside place ((List.range' index (count + 1)).map journalName) left := by
        rw [range, List.map_cons]
        exact (first.mono (by simp)).trans (second.mono fun name member => by simp [member])
      have allFiles (i : Nat) (above : index ≤ i) (below : i < index + (count + 1)) :
          left.Files place i (logs i) := by
        rcases Nat.eq_or_lt_of_le above with rfl | later
        · exact held.files fresh.path (place?_of_alike second.alike still)
        · exact filesToo i later (by omega)
      cases answer with
      | error fault =>
        refine ⟨.error fault, left, ?_, whole, allFiles, ?_⟩
        · rw [openJournals, opened]
          simp only [rest]
        · rintro journals ⟨⟩
      | ok journals =>
        obtain ⟨length, each⟩ := opens journals rfl
        refine ⟨.ok (.file journal :: journals), left, ?_, whole, allFiles, ?_⟩
        · rw [openJournals, opened]
          simp only [rest]
        · rintro all ⟨⟩
          refine ⟨by rw [List.length_cons, length], fun k other found => ?_⟩
          cases k with
          | zero =>
            cases found
            exact ⟨journal, rfl, held, fresh.path, fresh.recovered⟩
          | succ k =>
            have next := each k other found
            rwa [Nat.add_right_comm, Nat.add_assoc] at next

theorem openJournalsReadOnly_of_files {logs : Nat → List Bytes}
    (there : directory.place? disk = some place)
    (files : ∀ i, index ≤ i → i < index + count → disk.Files place i (logs i))
    {journals : List Journal}
    (opened : openJournalsReadOnly directory disk index count = .ok journals) :
    journals.length = count ∧ ∀ k journal, journals[k]? = some journal →
      ∃ log : FileJournal, journal = .file log ∧
        log.Shown directory disk (index + k) (logs (index + k)) := by
  induction count generalizing index journals with
  | zero =>
    cases opened
    exact ⟨rfl, fun k journal found => by cases found⟩
  | succ count ih =>
    rw [openJournalsReadOnly] at opened
    split at opened
    · cases opened
    · rename_i journal first
      cases rest : openJournalsReadOnly directory disk (index + 1) count with
      | error fault =>
        rw [rest] at opened
        cases opened
      | ok others =>
        rw [rest] at opened
        cases opened
        obtain ⟨length, each⟩ := ih (fun i above below => files i (by omega) (by omega)) rest
        refine ⟨by rw [List.length_cons, length], fun k other found => ?_⟩
        cases k with
        | zero =>
          cases found
          exact ⟨journal, rfl,
            shown_of_openReadOnly there (files index (Nat.le_refl _) (by omega)) first⟩
        | succ k =>
          have next := each k other found
          rwa [Nat.add_right_comm, Nat.add_assoc] at next

end Store

/-! Buckets -/

/-- The bucket was rebuilt from a journal that replays to these entries. -/
structure Bucket.Rebuilt (bucket : Bucket) (journal : FileJournal) (entries : Entries) : Prop where
  agrees : bucket.Agrees
  replays : ∃ log changes, journal.recovered = some log ∧ Batch.changes? log = some changes ∧
    Change.actAll Table.empty changes = entries
  sound : Sound entries
  entries : bucket.entries = entries
  journal : bucket.journal = .file { journal with recovered := none }

/-- The journal file of an index replays to these entries. -/
def DataDirectory.Replays (directory : DataDirectory) (disk : Disk) (index : Nat)
    (entries : Entries) : Prop :=
  ∃ log changes, disk.readBytes (directory.journalPath index) = .ok (Record.file log) ∧
    Batch.changes? log = some changes ∧ Change.actAll Table.empty changes = entries

theorem Bucket.Rebuilt.replays_file {bucket : Bucket} {journal : FileJournal} {entries : Entries}
    (rebuilt : bucket.Rebuilt journal entries) (shown : journal.Shown directory disk index log) :
    directory.Replays disk index bucket.entries := by
  obtain ⟨other, changes, recovered, read, reached⟩ := rebuilt.replays
  cases shown.recovered.symm.trans recovered
  exact ⟨log, changes, shown.read, read, reached.trans rebuilt.entries.symm⟩

namespace Store

variable {store after : Store} {settings : Settings} {contents : Array Entries}
variable {journals : List Journal} {logs : Nat → List Bytes}

/-- The entry at a key in the bucket at an index. -/
def entryOf (contents : Array Entries) (index : Nat) (key : EntryKey) : Option Entry :=
  contents[index]?.bind fun entries => entries.get? key

/-- The store holds these contents, each entry in the bucket of its queue, and each bucket journals
into the file of its index, which replays to it. -/
structure Shelters (store : Store) (directory : DataDirectory) (disk : Disk)
    (contents : Array Entries) : Prop where
  same : ∀ index key, store.entryAt index key = entryOf contents index key
  its : ∀ ⦃index key entry⦄, store.entryAt index key = some entry →
    index = store.bucketFor key.queue.id
  filed : ∀ ⦃index bucket⦄, store.buckets[index]? = some bucket →
    (∃ journal, bucket.journal = .file journal ∧ journal.path = directory.journalPath index) ∧
      directory.Replays disk index bucket.entries

theorem rebuilt_of_addBucket {journal : FileJournal} {entries : Entries}
    (recovered : journal.recovered = some log) (recalls : Recalls log entries)
    (added : store.addBucket (.file journal) = .ok after) :
    after.disk = store.disk ∧
      ∃ new : Bucket, after.buckets = store.buckets.push new ∧ new.Rebuilt journal entries := by
  let bare := Bucket.ofJournal store.bucketCount (.file { journal with recovered := none })
  have replayed := bare.replayBatches_eq store.budget none log
  have read : (Bucket.ofJournal store.bucketCount (.file journal)).recover store.budget store.disk =
      ⟨(bare.replayBatches store.budget none log).1, (bare.replayBatches store.budget none log).2.1,
        (bare.replayBatches store.budget none log).2.2, store.disk⟩ := by
    simp only [Bucket.recover, Bucket.ofJournal, Journal.replay, FileJournal.replay, recovered,
      bare]
  unfold addBucket at added
  rw [read] at added
  cases changes : Batch.changes? log with
  | none =>
    rw [changes] at replayed
    obtain ⟨fault, failed⟩ := replayed
    simp [failed] at added
  | some all =>
    rw [changes] at replayed
    dsimp only at replayed added
    rw [replayed] at added
    obtain ⟨lawful, reached⟩ := recalls all changes
    have frame := Bucket.applyAll_frame bare store.budget all
    dsimp only at added
    cases added
    refine ⟨rfl, _, rfl, ?_, ⟨log, all, recovered, changes, reached⟩, ?_,
      frame.1.trans reached, frame.2.1⟩
    · exact (Bucket.agrees_ofJournal _ _).applyAll store.budget lawful
    · rw [← reached]
      exact lawful.sound .empty

/-- Buckets are added at the end, one for each journal. -/
theorem each_of_foldlM {R : Nat → Bucket → Prop}
    (add : ∀ k journal, journals[k]? = some journal → ∀ before after : Store,
      before.addBucket journal = .ok after → after.disk = before.disk ∧
        ∃ new, after.buckets = before.buckets.push new ∧ R (store.buckets.size + k) new)
    (old : ∀ index bucket, store.buckets[index]? = some bucket → R index bucket)
    (added : journals.foldlM addBucket store = .ok after) :
    after.disk = store.disk ∧ after.buckets.size = store.buckets.size + journals.length ∧
      ∀ index bucket, after.buckets[index]? = some bucket → R index bucket := by
  induction journals generalizing store with
  | nil =>
    cases added
    exact ⟨rfl, rfl, old⟩
  | cons journal journals ih =>
    rw [List.foldlM_cons] at added
    cases first : store.addBucket journal with
    | error fault =>
      rw [first] at added
      cases added
    | ok middle =>
      rw [first] at added
      obtain ⟨disk, new, pushed, holds⟩ := add 0 journal rfl store middle first
      have size : middle.buckets.size = store.buckets.size + 1 := by
        rw [pushed, Array.size_push]
      have next : ∀ index bucket, middle.buckets[index]? = some bucket → R index bucket := by
        intro index bucket found
        rw [pushed, Array.getElem?_push] at found
        split at found
        · rename_i last
          cases found
          exact last ▸ holds
        · exact old index bucket found
      obtain ⟨same, sizes, each⟩ := ih (fun k other found before after done => by
        have more := add (k + 1) other found before after done
        rwa [← Nat.add_assoc, Nat.add_right_comm, ← size] at more) next added
      refine ⟨same.trans disk, ?_, each⟩
      rw [sizes, size, List.length_cons]
      omega

/-- Opening over journals that replay to some contents finds these contents. -/
theorem rebuilt_of_ofJournals (length : journals.length = contents.size)
    (recalls : ∀ ⦃index entries⦄, contents[index]? = some entries → Recalls (logs index) entries)
    (shown : ∀ index journal, journals[index]? = some journal →
      ∃ log : FileJournal, journal = .file log ∧ log.Shown directory disk index (logs index))
    (opened : ofJournals settings journals disk = .ok store) :
    store.disk = disk ∧ store.contents = contents ∧
      ∀ (index : Nat) (bucket : Bucket), store.buckets[index]? = some bucket →
        ∃ (log : FileJournal) (entries : Entries), journals[index]? = some (.file log) ∧
          contents[index]? = some entries ∧ bucket.Rebuilt log entries := by
  unfold ofJournals at opened
  dsimp only at opened
  split at opened
  · cases opened
  · let R (index : Nat) (bucket : Bucket) : Prop :=
      ∃ (log : FileJournal) (entries : Entries), journals[index]? = some (.file log) ∧
        contents[index]? = some entries ∧ bucket.Rebuilt log entries
    have old (index : Nat) (bucket : Bucket)
        (found : (#[] : Array Bucket)[index]? = some bucket) : R index bucket := by cases found
    have add (k : Nat) (journal : Journal) (found : journals[k]? = some journal)
        (before after : Store) (done : before.addBucket journal = .ok after) :
        after.disk = before.disk ∧
          ∃ new, after.buckets = before.buckets.push new ∧ R (0 + k) new := by
      have inside : k < contents.size := by
        rw [← length]
        exact (List.getElem?_eq_some_iff.mp found).1
      have held := Array.getElem?_eq_getElem inside
      obtain ⟨log, rfl, ready⟩ := shown k journal found
      obtain ⟨disk, new, pushed, rebuilt⟩ :=
        rebuilt_of_addBucket ready.recovered (recalls held) done
      refine ⟨disk, new, pushed, ?_⟩
      rw [Nat.zero_add]
      exact ⟨log, _, found, held, rebuilt⟩
    obtain ⟨same, size, each⟩ := each_of_foldlM add old opened
    have sizes : store.buckets.size = contents.size := by
      rw [size, length]
      exact Nat.zero_add _
    refine ⟨same, ?_, each⟩
    apply Array.ext_getElem?
    intro index
    rw [Store.contents, Array.getElem?_map]
    cases found : store.buckets[index]? with
    | none =>
      rw [Array.getElem?_eq_none_iff] at found
      rw [Array.getElem?_eq_none (sizes ▸ found), Option.map_none]
    | some bucket =>
      obtain ⟨log, entries, -, held, rebuilt⟩ := each index bucket found
      rw [held, Option.map_some, rebuilt.entries]

theorem shelters_of_ofJournals (length : journals.length = contents.size)
    (recalls : ∀ ⦃index entries⦄, contents[index]? = some entries → Recalls (logs index) entries)
    (shown : ∀ index journal, journals[index]? = some journal →
      ∃ log : FileJournal, journal = .file log ∧ log.Shown directory disk index (logs index))
    (routed : ∀ ⦃index entries⦄, contents[index]? = some entries →
      Table.Routed entries contents.size index)
    (opened : ofJournals settings journals disk = .ok store) :
    store.bucketCount = contents.size ∧ store.Shelters directory disk contents := by
  obtain ⟨-, found, each⟩ := rebuilt_of_ofJournals length recalls shown opened
  have size : store.bucketCount = contents.size := by
    rw [← found, Store.contents, Array.size_map]
    rfl
  refine ⟨size, fun index key => by rw [entryAt, found]; rfl, fun index key entry stored => ?_,
    fun index bucket there => ?_⟩
  · rw [entryAt, found] at stored
    obtain ⟨entries, held, stored⟩ := Option.bind_eq_some_iff.mp stored
    rw [bucketFor, size]
    exact (routed held stored).symm
  · obtain ⟨log, entries, listed, -, rebuilt⟩ := each index bucket there
    obtain ⟨other, its, ready⟩ := shown index _ listed
    cases its
    exact ⟨⟨_, rebuilt.journal, ready.path⟩, rebuilt.replays_file ready⟩

/-! Opening a directory -/

/-- What is left to do once the layout is recorded. -/
def openFiles (settings : Settings) (directory : DataDirectory) (disk : Disk) :
    Except QueueFault Store × Disk :=
  match openJournals settings.flushPolicy directory disk 0 settings.bucketCount with
  | (.error fault, disk) => (.error (.storage fault), disk)
  | (.ok journals, disk) => (ofJournals settings journals disk, disk)

end Store

namespace DataDirectory.Keeps

open Store

variable {settings : Settings} {contents : Array Entries} {store : Store}
variable (keeps : directory.Keeps toml disk place contents)
include keeps

theorem exists_logs : ∃ logs : Nat → List Bytes, ∀ index entries,
    contents[index]? = some entries →
      disk.Files place index (logs index) ∧ Recalls (logs index) entries := by
  have each (index : Nat) : ∃ log, ∀ entries, contents[index]? = some entries →
      disk.Files place index log ∧ Recalls log entries := by
    cases held : contents[index]? with
    | none => exact ⟨[], fun entries found => by cases found⟩
    | some entries =>
      obtain ⟨log, files, recalls⟩ := keeps.journals held
      refine ⟨log, fun other found => ?_⟩
      cases found
      exact ⟨files, recalls⟩
  exact Classical.skolem.mp each

theorem openFiles (count : settings.bucketCount = contents.size) :
    directory.Keeps toml (openFiles settings directory disk).2 place contents ∧
      ∀ store, (Store.openFiles settings directory disk).1 = .ok store →
        store.Lodges directory toml place contents.size ∧
          store.Shelters directory (Store.openFiles settings directory disk).2 contents := by
  obtain ⟨logs, held⟩ := keeps.exists_logs
  have files (i : Nat) (_ : 0 ≤ i) (inside : i < 0 + settings.bucketCount) :
      disk.Files place i (logs i) := by
    rw [Nat.zero_add, count] at inside
    exact (held i _ (Array.getElem?_eq_getElem inside)).1
  obtain ⟨answer, left, opened, aside, filesToo, opens⟩ :=
    openJournals_of_files settings.flushPolicy keeps.sound keeps.apart keeps.there files
  have recalls ⦃index : Nat⦄ ⦃entries : Entries⦄ (found : contents[index]? = some entries) :
      Recalls (logs index) entries := (held index entries found).2
  have foreign : Layout.fileName ∉ (List.range' 0 settings.bucketCount).map journalName := by
    intro member
    obtain ⟨i, -, same⟩ := List.mem_map.mp member
    exact layout_ne i same.symm
  have later : directory.Keeps toml left place contents := by
    refine keeps.aside aside foreign rfl (fun index entries found => ?_) keeps.routed
    have inside := (Array.getElem?_eq_some_iff.mp found).1
    exact ⟨logs index, filesToo index (Nat.zero_le _) (by omega), recalls found⟩
  unfold Store.openFiles
  rw [opened]
  cases answer with
  | error fault => exact ⟨later, fun store done => by cases done⟩
  | ok journals =>
    obtain ⟨length, opens⟩ := opens journals rfl
    have fresh (index : Nat) (journal : Journal) (there : journals[index]? = some journal) :
        ∃ log : FileJournal, journal = .file log ∧ log.Fresh directory left index (logs index) := by
      have ready := opens index journal there
      rwa [Nat.zero_add] at ready
    have shown (index : Nat) (journal : Journal) (there : journals[index]? = some journal) :
        ∃ log : FileJournal, journal = .file log ∧ log.Shown directory left index (logs index) :=
      (fresh index journal there).imp fun log ready => ready.imp_right FileJournal.Fresh.shown
    refine ⟨later, fun store done => ?_⟩
    have length := length.trans count
    obtain ⟨size, shelters⟩ :=
      shelters_of_ofJournals length recalls shown later.routed done
    refine ⟨?_, shelters⟩
    obtain ⟨same, -, each⟩ := rebuilt_of_ofJournals length recalls shown done
    rw [← same] at later fresh
    refine ⟨later.sound, later.apart, later.there, later.records, size,
      fun index bucket there => ?_, fun index bucket there => ?_⟩
    · obtain ⟨log, entries, listed, held, rebuilt⟩ := each index bucket there
      obtain ⟨other, its, ready⟩ := fresh index _ listed
      cases its
      refine ⟨rebuilt.agrees, rebuilt.entries ▸ rebuilt.sound, _, logs index, rebuilt.journal,
        ready.path, ready.holds.read, ?_⟩
      rw [rebuilt.entries]
      exact recalls held
    · obtain ⟨log, entries, -, held, rebuilt⟩ := each index bucket there
      rw [rebuilt.entries]
      exact keeps.routed held

variable (its : DataDirectory.ofText settings.dataDir = directory)
include its

/-- A directory opens with as many buckets as it has, if at all. -/
theorem «open» : Store.open toml settings disk =
    match settings.validate with
    | .error fault => (.error (.settings fault), disk)
    | .ok () =>
      if settings.bucketCount = contents.size then Store.openFiles settings directory disk
      else (.error (.storage (.layoutMismatch (.ofCount contents.size)
        (.ofCount settings.bucketCount))), disk) := by
  unfold Store.open
  rw [its]
  cases settings.validate with
  | error fault => rfl
  | ok =>
    simp only [keeps.createDirectories, keeps.records.ensureLayout]
    by_cases same : settings.bucketCount = contents.size
    · simp only [if_pos same]
      rfl
    · simp only [if_neg same]

/-- A store that is opened to look at it has as many buckets, too. -/
theorem openReadOnly :
    Store.openReadOnly toml settings disk =
        Store.openReadOnly toml { settings with bucketCount := contents.size } disk ∧
      ∀ store, Store.openReadOnly toml settings disk = .ok store →
        store.bucketCount = contents.size ∧ store.Shelters directory disk contents := by
  have recorded (configured : Nat) : recordedCount toml directory disk configured =
      .ok contents.size := by
    have same : checkLayout (.ofCount contents.size) (.ofCount contents.size) = .ok () := if_pos rfl
    unfold recordedCount
    rw [keeps.records.loadLayout]
    dsimp only
    rw [show (Layout.ofCount contents.size).bucketCount = contents.size from rfl, same]
    rfl
  constructor
  · unfold Store.openReadOnly
    dsimp only
    rw [its, recorded, recorded]
    rfl
  · intro store opened
    obtain ⟨logs, held⟩ := keeps.exists_logs
    have files (i : Nat) (_ : 0 ≤ i) (inside : i < 0 + contents.size) :
        disk.Files place i (logs i) :=
      (held i _ (Array.getElem?_eq_getElem (by omega))).1
    unfold Store.openReadOnly at opened
    rw [its] at opened
    dsimp only at opened
    rw [recorded] at opened
    dsimp only at opened
    split at opened
    · cases opened
    · rename_i journals read
      obtain ⟨length, each⟩ := openJournalsReadOnly_of_files keeps.there files read
      refine shelters_of_ofJournals length (fun index entries there => (held index entries there).2)
        (fun index journal there => ?_) keeps.routed opened
      have shown := each index journal there
      rwa [Nat.zero_add] at shown

end DataDirectory.Keeps

namespace DataDirectory.Unused

variable {settings : Settings} (unused : directory.Unused disk) (sound : disk.Sound)
  (its : DataDirectory.ofText settings.dataDir = directory)
  (reads : toml.Keeps (.ofCount settings.bucketCount))
include unused sound its reads

/-- The first opening fails and records no layout, or records its own. -/
theorem «open» :
    (∃ fault left, Store.open toml settings disk = (.error fault, left) ∧ left.Sound ∧
        directory.Unused left) ∨
      ∃ middle place, settings.validate = .ok () ∧
        directory.Keeps toml middle place (Array.replicate settings.bucketCount Table.empty) ∧
        Store.open toml settings disk = Store.openFiles settings directory middle := by
  have grown := Disk.grown_createDirectories sound directory.path
  have safe := sound.createDirectories directory.path
  unfold Store.open
  rw [its]
  cases settings.validate with
  | error fault => exact .inl ⟨_, _, rfl, sound, unused⟩
  | ok =>
    dsimp only
    generalize disk.createDirectories directory.path = made at grown safe
    obtain ⟨answer, base⟩ := made
    cases answer with
    | error fault => exact .inl ⟨_, _, rfl, safe, unused.grown grown⟩
    | ok =>
      rcases (unused.grown grown).ensureLayout safe reads with
        ⟨fault, left, failed, still⟩ | ⟨middle, place, recorded, keeps⟩
      · refine .inl ⟨.storage fault, left, ?_, still⟩
        simp only [failed]
      · refine .inr ⟨middle, place, rfl, keeps, ?_⟩
        simp only [recorded]
        rfl

end DataDirectory.Unused

end DeliveryQueue
