import DeliveryQueue.Proofs.Devices
import DeliveryQueue.Proofs.Framing

/-!
Journals and their files. A journal that was opened holds the log in its file (`FileJournal.Holds`):
it stands behind the last record, knows the number of the next one, and its path leads to the file.
Appending and rewriting keep it so, and so does opening a file that was cut behind its header.
-/
namespace DeliveryQueue

/-- Once the directories on the way are there, no file or an empty one is at the path. -/
def Disk.Blank (disk : Disk) (path : Path) : Prop :=
  ∀ number, (disk.createDirectories path.parent).2.openFile path = .ok number →
    (disk.createDirectories path.parent).2.content number = []

namespace FileJournal

/-- The file of the journal holds these batches, and the journal stands behind the last. -/
structure Holds (journal : FileJournal) (disk : Disk) (log : List Bytes) : Prop where
  sound : disk.Sound
  leads : ∃ directory name, disk.Leads journal.path directory name journal.file
  content : disk.content journal.file = Record.file log
  short : Record.Short log
  position : journal.position = (Record.file log).length
  nextId : journal.nextId = 1 + UInt64.ofNat log.length
  records : journal.records = log.length
  writable : journal.readOnly = false
  device : journal.device.Sound

variable {journal after : FileJournal} {disk left : Disk} {log : List Bytes} {batch : Bytes}
variable {path : Path} {number count : Nat}

namespace Holds

theorem inside (holds : journal.Holds disk log) : journal.file < disk.files.size := by
  obtain ⟨directory, name, leads⟩ := holds.leads
  exact holds.sound.files leads.node

/-- The bytes that an append leaves in the file. -/
theorem append (holds : journal.Holds disk log) (light : batch.length < UInt32.size) :
    ∃ after left, journal.append disk batch = (.ok (), after, left) ∧
      after.Holds left (log ++ [batch]) ∧ after.recovered = journal.recovered ∧
      after.path = journal.path := by
  obtain ⟨unflushed, lastFlush, done⟩ := append_of_sound holds.device holds.writable light disk
  refine ⟨_, _, done, ?_, rfl, rfl⟩
  obtain ⟨directory, name, leads⟩ := holds.leads
  have bytes : (disk.file journal.file).bytes = Record.file log := holds.content
  have longer : (Record.file (log ++ [batch])).length =
      (Record.file log).length + (Record.encode journal.nextId batch).length := by
    rw [Record.file_concat, List.length_append, Record.length_encode, Record.length_encode]
  exact {
    sound := holds.sound.changeContent _ _
    leads := ⟨directory, name, leads.changeContent _ _⟩
    content := by
      change (disk.changeContent journal.file _).content journal.file = _
      rw [Disk.content_changeContent_self holds.inside, FileContent.bytes_overwrite, bytes,
        holds.position, overwrite_length, holds.nextId, Record.file_concat]
    short := by
      intro other member
      rcases List.mem_append.mp member with old | new
      · exact holds.short other old
      · rw [List.mem_singleton.mp new]
        exact light
    position := by rw [longer, ← holds.position, pass]
    nextId := by
      rw [pass, holds.nextId, List.length_append, List.length_singleton, add_ofNat_succ,
        UInt64.add_assoc, UInt64.add_comm _ 1, ← UInt64.add_assoc]
    records := by rw [pass, holds.records, List.length_append, List.length_singleton]
    writable := holds.writable
    device := holds.device }

theorem append_of_heavy (holds : journal.Holds disk log) (heavy : UInt32.size ≤ batch.length) :
    journal.append disk batch =
      (.error (.corruption (.record .batchTooLarge)), journal, disk) := by
  unfold FileJournal.append
  rw [holds.writable, if_neg Bool.false_ne_true, if_pos heavy]

/-- Rewriting that succeeds leaves a journal of one batch. -/
theorem replaceAll (holds : journal.Holds disk log)
    (done : journal.replaceAll disk batch = (.ok (), after, left)) :
    after.Holds left [batch] ∧ after.recovered = none ∧ after.path = journal.path := by
  obtain ⟨directory, name, leads⟩ := holds.leads
  unfold FileJournal.replaceAll at done
  rw [holds.writable, if_neg Bool.false_ne_true] at done
  split at done
  · cases done
  · rename_i light
    rw [Nat.not_le] at light
    rw [draft_of_sound holds.device] at done
    dsimp only at done
    split at done
    · cases done
    · rename_i middle wrote
      obtain ⟨spares, newDirectory, newName, number, leadsNew, content⟩ :=
        Disk.writeFile_leads holds.sound wrote
      obtain ⟨last, renamed, sound, leadsLast, files⟩ :=
        Disk.renameFile_leads spares.sound leadsNew (spares.leads leads)
      rw [renamed] at done
      simp only [leadsLast.openFile] at done
      cases done
      have bytes : Record.file [batch] = Record.header ++ Record.encode 1 batch := by
        rw [Record.file, Record.chain, Record.chain, List.append_nil]
      refine ⟨?_, rfl, rfl⟩
      exact {
        sound
        leads := ⟨directory, name, leadsLast⟩
        content := by rw [Disk.content, Disk.file, files, bytes]; exact content
        short := by
          intro other member
          rw [List.mem_singleton.mp member]
          exact light
        position := by rw [bytes]
        nextId := rfl
        records := rfl
        writable := rfl
        device := holds.device }

/-- Only the disk can keep a journal from being rewritten. -/
theorem replaceAll_cases (holds : journal.Holds disk log) (light : batch.length < UInt32.size) :
    (∃ fault left, journal.replaceAll disk batch = (.error (.io fault), journal, left)) ∨
      ∃ after left, journal.replaceAll disk batch = (.ok (), after, left) := by
  have unlocked : ¬ journal.readOnly = true := Bool.not_eq_true _ ▸ holds.writable
  unfold FileJournal.replaceAll
  rw [if_neg unlocked, if_neg (Nat.not_le.mpr light), draft_of_sound holds.device]
  dsimp only
  split
  · exact .inl ⟨_, _, rfl⟩
  · split
    · exact .inl ⟨_, _, rfl⟩
    · split
      · exact .inl ⟨_, _, rfl⟩
      · exact .inr ⟨_, _, rfl⟩

/-- Flushing tells nothing new about the file. -/
theorem sync (holds : journal.Holds disk log) :
    ∃ after, journal.sync = (.ok (), after) ∧ after.Holds disk log ∧
      after.recovered = journal.recovered ∧ after.path = journal.path := by
  have unlocked : ¬ journal.readOnly = true := Bool.not_eq_true _ ▸ holds.writable
  unfold FileJournal.sync
  rw [if_neg unlocked]
  simp only [flush, Device.flush, holds.device.flushes]
  exact ⟨_, rfl, ⟨holds.sound, holds.leads, holds.content, holds.short, holds.position,
    holds.nextId, holds.records, holds.writable, holds.device⟩, rfl, rfl⟩

/-- A replay shows what was found on opening, the first time, and then what is in the file. -/
theorem replay (holds : journal.Holds disk log) : journal.replay disk =
    (.ok (journal.recovered.getD log), { journal with recovered := none }) := by
  unfold FileJournal.replay
  cases found : journal.recovered with
  | some batches => rfl
  | none =>
    have whole : (Record.file log).take (Record.file log).length = Record.file log :=
      List.take_length
    have kept : Record.headerLength ≤ (Record.file log).length := by
      rw [Record.length_file]
      exact Nat.le_add_right _ _
    have all : Record.within ((Record.file log).length - Record.headerLength) log = log := by
      rw [Record.length_file, Nat.add_sub_cancel_left]
      exact Record.within_of_length_le 1 (Nat.le_refl _)
    have scanned := Record.scan_take holds.short kept
    rw [whole, all] at scanned
    simp only [holds.content, scanned, ← holds.position, Option.getD_none]

theorem read (holds : journal.Holds disk log) :
    { journal with recovered := none }.Holds disk log :=
  ⟨holds.sound, holds.leads, holds.content, holds.short, holds.position, holds.nextId,
    holds.records, holds.writable, holds.device⟩

/-- When the journal flushes is its own affair. -/
theorem withPolicy (holds : journal.Holds disk log) (policy : FlushPolicy) :
    { journal with policy }.Holds disk log :=
  ⟨holds.sound, holds.leads, holds.content, holds.short, holds.position, holds.nextId,
    holds.records, holds.writable, holds.device⟩

end Holds

/-! Opening -/

/-- The journal over a file that was cut, once what is left of a record is cut off too. -/
theorem holds_ofScan {directory : Nat} {name : String} (sound : disk.Sound)
    (leads : disk.Leads path directory name number)
    (content : disk.content number = (Record.file log).take count) (short : Record.Short log)
    (kept : Record.headerLength ≤ count) :
    ∃ scan, inspect (disk.content number) = .ok scan ∧
      scan.batches = Record.within (count - Record.headerLength) log ∧
      (ofScan path number false scan).Holds (disk.changeContent number (·.resize scan.stop))
        scan.batches := by
  rw [content]
  refine ⟨_, inspect_take short kept, rfl, ?_⟩
  have inside := sound.files leads.node
  have bytes : (disk.file number).bytes = (Record.file log).take count := content
  exact {
    sound := sound.changeContent _ _
    leads := ⟨directory, name, leads.changeContent _ _⟩
    content := by
      change (disk.changeContent number _).content number = _
      rw [Disk.content_changeContent_self inside, FileContent.bytes_resize, bytes]
      exact Record.resize_take short kept
    short := short.within _
    position := rfl
    nextId := rfl
    records := rfl
    writable := rfl
    device := Device.sound_sound }

/-- A file that was cut behind its header opens, and the journal holds what was not cut. -/
theorem open_take {directory : Nat} {name : String} (sound : disk.Sound)
    (leads : disk.Leads path directory name number)
    (content : disk.content number = (Record.file log).take count) (short : Record.Short log)
    (kept : Record.headerLength ≤ count) (long : count ≤ (Record.file log).length) :
    ∃ journal after, FileJournal.open disk path = (.ok journal, after) ∧
      journal.path = path ∧ journal.file = number ∧
      journal.recovered = some (Record.within (count - Record.headerLength) log) ∧
      journal.Holds after (Record.within (count - Record.headerLength) log) := by
  obtain ⟨scan, inspected, batches, holds⟩ := holds_ofScan sound leads content short kept
  have filled : (disk.file number).length ≠ 0 := by
    rw [← FileContent.length_bytes, show (disk.file number).bytes = _ from content,
      List.length_take, Nat.min_eq_left long]
    exact Nat.ne_of_gt (Nat.lt_of_lt_of_le (by decide) kept)
  refine ⟨_, _, ?_, rfl, rfl, congrArg some batches, batches ▸ holds⟩
  unfold FileJournal.open
  rw [leads.createDirectories]
  simp only [leads.openOrCreate, filled, if_false, inspected]

/-- A new journal holds nothing. -/
theorem open_blank (sound : disk.Sound) (blank : disk.Blank path)
    (opened : FileJournal.open disk path = (.ok journal, left)) :
    journal.Holds left [] ∧ journal.recovered = some [] ∧ journal.path = path := by
  have ready := sound.createDirectories path.parent
  unfold Disk.Blank at blank
  unfold FileJournal.open at opened
  generalize disk.createDirectories path.parent = made at ready blank opened
  obtain ⟨answer, base⟩ := made
  cases answer with
  | error fault => cases opened
  | ok =>
    dsimp only at ready blank opened
    cases found : base.openOrCreate path with
    | error fault => simp [found] at opened
    | ok reached =>
      obtain ⟨number, middle⟩ := reached
      simp only [found] at opened
      obtain ⟨spares, inside, directory, name, leads⟩ := Disk.openOrCreate_leads ready found
      have empty : middle.content number = [] := by
        rcases Disk.content_openOrCreate found with rfl | new
        · exact blank number leads.openFile
        · exact new
      have none : (middle.file number).length = 0 := by
        rw [← FileContent.length_bytes, show (middle.file number).bytes = [] from empty]
        rfl
      have headed : (middle.setContent number Record.header).content number =
          (Record.file []).take Record.headerLength := by
        rw [Disk.setContent, Disk.content_changeContent_self inside]
        rfl
      have ready : (middle.setContent number Record.header).Sound :=
        spares.sound.changeContent number _
      obtain ⟨scan, inspected, batches, holds⟩ := holds_ofScan ready (leads.changeContent number _)
        headed (List.forall_mem_nil _) (Nat.le_refl _)
      have nothing : scan.batches = [] := batches
      rw [nothing] at holds
      simp only [none, if_true, inspected] at opened
      cases opened
      exact ⟨holds, congrArg some nothing, rfl⟩

end FileJournal

/-! A small journal -/

/-- A file in the working directory. -/
def Path.log : Path := ⟨false, ["j.log"]⟩

/-- The journal that is opened there on an empty disk. -/
def FileJournal.fresh : FileJournal :=
  ⟨.log, 0, 32, 1, 0, some [], false, .standard, 0, 0, .sound⟩

/-- The disk with that journal. -/
def Disk.withJournal : Disk := (FileJournal.open .empty .log).2

theorem FileJournal.open_fresh : FileJournal.open .empty .log = (.ok .fresh, .withJournal) := rfl

theorem Disk.empty_blank : empty.Blank .log := by
  intro number found
  have missing : (empty.createDirectories (Path.parent .log)).2.openFile .log =
      .error .notFound := rfl
  cases missing.symm.trans found

end DeliveryQueue
