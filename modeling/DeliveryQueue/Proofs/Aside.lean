import DeliveryQueue.Proofs.Places

/-!
Files side by side in one directory. Whoever writes under some names there leaves what stands under
the others alone (`Disk.Aside`). So a journal goes on holding its log while other journals of the
data directory are opened, written and rewritten.
-/
namespace DeliveryQueue

namespace Disk

variable {disk after last : Disk} {path : Path} {place number : Nat} {name : String}
variable {mine : List String} {directory : DataDirectory}

/-- No two names in the directory at a place lead to one file. -/
def Apart (disk : Disk) (place : Nat) : Prop :=
  ∀ ⦃name other number⦄, disk.node? place name = some (.file number) →
    disk.node? place other = some (.file number) → name = other

/-- In the directory at a place nothing changed but what these names lead to. -/
structure Aside (disk : Disk) (place : Nat) (mine : List String) (after : Disk) : Prop where
  sound : after.Sound
  alike : disk.Alike after
  apart : after.Apart place
  node : ∀ ⦃other⦄, other ∉ mine → after.node? place other = disk.node? place other
  content : ∀ ⦃other otherNumber⦄, other ∉ mine →
    disk.node? place other = some (.file otherNumber) →
      after.content otherNumber = disk.content otherNumber

namespace Aside

theorem refl (sound : disk.Sound) (apart : disk.Apart place) (mine : List String) :
    disk.Aside place mine disk :=
  ⟨sound, .refl disk, apart, fun _ _ => rfl, fun _ _ _ _ => rfl⟩

theorem trans (first : disk.Aside place mine after) (second : after.Aside place mine last) :
    disk.Aside place mine last where
  sound := second.sound
  alike := first.alike.trans second.alike
  apart := second.apart
  node _ foreign := (second.node foreign).trans (first.node foreign)
  content _ _ foreign found :=
    (second.content foreign ((first.node foreign).trans found)).trans (first.content foreign found)

theorem mono {more : List String} (aside : disk.Aside place mine after)
    (sub : ∀ name ∈ mine, name ∈ more) : disk.Aside place more after where
  sound := aside.sound
  alike := aside.alike
  apart := aside.apart
  node name foreign := aside.node fun member => foreign (sub name member)
  content name _ foreign := aside.content fun member => foreign (sub name member)

/-- A path to another name leads to the same file. -/
theorem leads (aside : disk.Aside place mine after)
    (leads : disk.Leads path place name number) (other : name ∉ mine) :
    after.Leads path place name number :=
  leads.of_alike aside.alike ((aside.node other).trans leads.node)

end Aside

theorem aside_changeContent (sound : disk.Sound) (apart : disk.Apart place)
    (found : disk.node? place name = some (.file number)) (its : name ∈ mine)
    (change : FileContent → FileContent) :
    disk.Aside place mine (disk.changeContent number change) where
  sound := sound.changeContent number change
  alike := changeContent_alike disk number change
  apart := apart
  node _ _ := rfl
  content other otherNumber foreign there := by
    have differs : otherNumber ≠ number := by
      rintro rfl
      exact foreign (apart there found ▸ its)
    rw [content, file_changeContent, if_neg fun same => differs same.1]
    rfl

theorem aside_link (sound : disk.Sound) (apart : disk.Apart place)
    (inside : place < disk.directories.size)
    (free : ∀ other, disk.node? place name ≠ some (.directory other)) (its : name ∈ mine)
    (holds : number < disk.files.size)
    (alone : ∀ other, disk.node? place other ≠ some (.file number)) :
    disk.Aside place mine (disk.link place name (.file number)) where
  sound := sound.link inside holds
  alike := link_alike inside free _
  apart first second both leads leadsToo := by
    rw [node?_link inside] at leads leadsToo
    split at leads
    · rename_i named
      cases leads
      split at leadsToo
      · rename_i namedToo
        exact named.2.trans namedToo.2.symm
      · exact absurd leadsToo (alone second)
    · split at leadsToo
      · cases leadsToo
        exact absurd leads (alone first)
      · exact apart leads leadsToo
  node other foreign := by
    rw [node?_link inside, if_neg]
    rintro ⟨-, rfl⟩
    exact foreign its
  content _ _ _ _ := rfl

theorem aside_unlink (sound : disk.Sound) (apart : disk.Apart place)
    (there : disk.node? place name = some (.file number)) (its : name ∈ mine) :
    disk.Aside place mine (disk.unlink place name) where
  sound := sound.unlink place name
  alike := unlink_alike there
  apart first second both leads leadsToo := by
    rw [node?_unlink] at leads leadsToo
    split at leads
    · cases leads
    · split at leadsToo
      · cases leadsToo
      · exact apart leads leadsToo
  node other foreign := by
    rw [node?_unlink, if_neg]
    rintro ⟨-, rfl⟩
    exact foreign its
  content _ _ _ _ := rfl

theorem aside_push (sound : disk.Sound) (apart : disk.Apart place) (mine : List String)
    (content : FileContent) :
    disk.Aside place mine { disk with files := disk.files.push content } where
  sound := by
    refine ⟨sound.root, sound.directories, fun _ _ _ found => ?_⟩
    rw [Array.size_push]
    exact Nat.lt_succ_of_lt (sound.files found)
  alike := ⟨rfl, rfl, fun _ _ _ found => found⟩
  apart := apart
  node _ _ := rfl
  content _ number _ there := by
    have old := sound.files there
    simp only [Disk.content, file, Array.getElem?_push, Nat.ne_of_lt old, if_false]

theorem aside_openOrCreate (sound : disk.Sound) (apart : disk.Apart place)
    (there : directory.place? disk = some place) (proper : Path.Proper name) (its : name ∈ mine)
    (opened : disk.openOrCreate (directory.path.join name) = .ok (number, after)) :
    disk.Aside place mine after ∧ after.Leads (directory.path.join name) place name number := by
  obtain ⟨found, other, ends, plain, fits, cases⟩ := openOrCreate_cases opened
  obtain ⟨-, same, rfl⟩ := (DataDirectory.ending_join proper).mp ends
  cases same.symm.trans there
  have inside := sound.ending ends
  rcases cases with ⟨node, rfl⟩ | ⟨free, rfl, rfl⟩
  · exact ⟨.refl sound apart mine, ends, plain, inside, fits, node⟩
  · have longer := aside_push sound apart mine .empty
    have linked := aside_link longer.sound longer.apart inside
      (fun _ node => by cases free.symm.trans node) its
      (by rw [Array.size_push]; exact Nat.lt_succ_self _)
      (fun _ node => Nat.lt_irrefl _ (sound.files node))
    have aside := longer.trans linked
    refine ⟨aside, ending_of_alike aside.alike ends, plain, aside.alike.size ▸ inside, fits, ?_⟩
    exact (node?_link inside other _ place other).trans (if_pos ⟨rfl, rfl⟩)

theorem aside_writeFile (sound : disk.Sound) (apart : disk.Apart place)
    (there : directory.place? disk = some place) (proper : Path.Proper name) (its : name ∈ mine)
    {bytes : Bytes} (written : disk.writeFile (directory.path.join name) bytes = .ok after) :
    disk.Aside place mine after ∧ ∃ number,
      after.Leads (directory.path.join name) place name number ∧ after.content number = bytes := by
  unfold writeFile at written
  cases opened : disk.openOrCreate (directory.path.join name) with
  | error fault => simp [opened, bind, Except.bind] at written
  | ok found =>
    obtain ⟨number, middle⟩ := found
    simp only [opened, bind, Except.bind, pure, Except.pure, Except.ok.injEq] at written
    subst written
    obtain ⟨aside, leads⟩ := aside_openOrCreate sound apart there proper its opened
    refine ⟨aside.trans (aside_changeContent aside.sound aside.apart leads.node its _), number,
      leads.changeContent number _, ?_⟩
    rw [content, setContent, file_changeContent,
      if_pos ⟨rfl, aside.sound.files leads.node⟩, FileContent.bytes_ofBytes]

/-- A file takes another name in the same directory, and with it the place of what had it. -/
theorem aside_renameFile (sound : disk.Sound) (apart : disk.Apart place) {source : Path}
    {oldName : String} (leads : disk.Leads source place oldName number)
    (ends : disk.ending path = .ok (some (place, name))) (plain : path.endsInSlash = false)
    (its : name ∈ mine) (itsToo : oldName ∈ mine)
    (renamed : disk.renameFile source path = .ok after) :
    disk.Aside place mine after ∧ after.Leads path place name number ∧
      after.content number = disk.content number := by
  unfold renameFile at renamed
  simp only [leads.findFile, ends, plain, bind, Except.bind, pure, Except.pure,
    Bool.false_eq_true, if_false] at renamed
  have inside := sound.ending ends
  have first := aside_unlink sound apart leads.node itsToo
  have gone (other : String) :
      (disk.unlink place oldName).node? place other ≠ some (.file number) := by
    intro there
    rw [node?_unlink] at there
    split at there
    · cases there
    · rename_i differs
      exact differs ⟨rfl, apart there leads.node⟩
  cases found : disk.entry place name with
  | error fault => simp [found] at renamed
  | ok node =>
    obtain ⟨fits, there⟩ := entry_eq_ok_iff.mp found
    have free (other : Nat) :
        (disk.unlink place oldName).node? place name ≠ some (.directory other) := by
      intro same
      rw [node?_unlink] at same
      split at same
      · cases same
      · rw [there] at same
        subst same
        simp [found] at renamed
    have done : (disk.unlink place oldName).link place name (.file number) = after := by
      rw [found] at renamed
      rcases node with _ | (_ | _)
      · exact Except.ok.inj renamed
      · cases renamed
      · exact Except.ok.inj renamed
    subst done
    have second := aside_link first.sound first.apart
      (first.alike.size ▸ inside) free its (sound.files leads.node) gone
    have aside := first.trans second
    refine ⟨aside, ⟨ending_of_alike aside.alike ends, plain, aside.alike.size ▸ inside, fits, ?_⟩,
      rfl⟩
    exact (node?_link (first.alike.size ▸ inside) name _ place name).trans (if_pos ⟨rfl, rfl⟩)

end Disk

/-! Journals side by side -/

open DataDirectory

/-- The journal file of an index holds these batches, or is missing and there are none. -/
structure Disk.Files (disk : Disk) (place index : Nat) (log : List Bytes) : Prop where
  short : Record.Short log
  content : ∀ ⦃number⦄, disk.node? place (journalName index) = some (.file number) →
    disk.content number = Record.file log
  missing : (∀ number, disk.node? place (journalName index) ≠ some (.file number)) → log = []

theorem Disk.Files.aside {disk after : Disk} {place index : Nat} {mine : List String}
    {log : List Bytes} (files : disk.Files place index log) (aside : disk.Aside place mine after)
    (foreign : journalName index ∉ mine) : after.Files place index log where
  short := files.short
  content _ there := by
    rw [aside.node foreign] at there
    exact (aside.content foreign there).trans (files.content there)
  missing gone := files.missing fun number there =>
    gone number ((aside.node foreign).trans there)

namespace FileJournal

variable {directory : DataDirectory} {journal after : FileJournal} {disk left : Disk}
variable {place index : Nat} {log : List Bytes} {batch : Bytes} {mine : List String}

namespace Holds

variable (holds : journal.Holds disk log) (path : journal.path = directory.journalPath index)
  (there : directory.place? disk = some place)
include holds path there

theorem leads_place :
    disk.Leads (directory.journalPath index) place (journalName index) journal.file := by
  obtain ⟨found, name, leads⟩ := holds.leads
  rw [path] at leads
  obtain ⟨same, rfl⟩ := leads_join (proper_journalName index) leads
  cases same.symm.trans there
  exact leads

/-- A journal holds its log whatever is written under other names. -/
theorem aside (aside : disk.Aside place mine left) (foreign : journalName index ∉ mine) :
    journal.Holds left log where
  sound := aside.sound
  leads := ⟨place, _, path ▸ aside.leads (holds.leads_place path there) foreign⟩
  content := (aside.content foreign (holds.leads_place path there).node).trans holds.content
  short := holds.short
  position := holds.position
  nextId := holds.nextId
  records := holds.records
  writable := holds.writable
  device := holds.device

theorem files : disk.Files place index log where
  short := holds.short
  content _ found := by
    cases (holds.leads_place path there).node.symm.trans found
    exact holds.content
  missing gone := absurd (holds.leads_place path there).node (gone _)

theorem aside_append (apart : disk.Apart place)
    (done : journal.append disk batch = (.ok (), after, left)) :
    disk.Aside place [journalName index] left := by
  have light : batch.length < UInt32.size := Nat.lt_of_not_le fun heavy => by
    cases (holds.append_of_heavy heavy).symm.trans done
  obtain ⟨unflushed, lastFlush, appended⟩ :=
    append_of_sound holds.device holds.writable light disk
  cases appended.symm.trans done
  exact Disk.aside_changeContent holds.sound apart (holds.leads_place path there).node
    (List.mem_singleton_self _) _

/-- A rewrite that fails leaves nothing behind but perhaps its draft. -/
theorem aside_replaceAll (batch : Bytes) (apart : disk.Apart place) :
    (∃ fault left, journal.replaceAll disk batch = (.error fault, journal, left) ∧
        disk.Aside place [draftName index] left) ∨
      ∃ after left, journal.replaceAll disk batch = (.ok (), after, left) ∧
        disk.Aside place [journalName index, draftName index] left := by
  have own := holds.leads_place path there
  have draft : journal.path.withExtension compactExtension =
      directory.path.join (draftName index) := by
    rw [path]
    exact journalPath_withExtension directory index
  have still := Disk.Aside.refl holds.sound apart [draftName index]
  unfold FileJournal.replaceAll
  split
  · exact .inl ⟨_, _, rfl, still⟩
  · split
    · exact .inl ⟨_, _, rfl, still⟩
    · rw [draft_of_sound holds.device, draft]
      dsimp only
      split
      · exact .inl ⟨_, _, rfl, still⟩
      · rename_i middle wrote
        obtain ⟨first, number, leads, -⟩ := Disk.aside_writeFile holds.sound apart there
          (proper_draftName index) (List.mem_singleton_self _) wrote
        split
        · exact .inl ⟨_, _, rfl, first⟩
        · rename_i last renamed
          have foreign : journalName index ∉ [draftName index] := by
            simpa using draftName_ne index index
          have old := first.leads own foreign
          have final : journalName index ∈ [journalName index, draftName index] :=
            List.mem_cons_self
          have draft : draftName index ∈ [journalName index, draftName index] := by simp
          rw [path] at renamed ⊢
          obtain ⟨second, leads, -⟩ := Disk.aside_renameFile first.sound first.apart leads
            old.ending old.plain final draft renamed
          rw [leads.openFile]
          exact .inr ⟨_, _, rfl, (first.mono (by simp)).trans second⟩

end Holds

/-- The journal of an index was opened and is about to be replayed. -/
structure Fresh (journal : FileJournal) (directory : DataDirectory) (disk : Disk) (index : Nat)
    (log : List Bytes) : Prop where
  holds : journal.Holds disk log
  path : journal.path = directory.journalPath index
  recovered : journal.recovered = some log

/-- The whole file of a log reads as the log. -/
theorem holds_ofScan_file {path : Path} {name : String} {number : Nat} (sound : disk.Sound)
    (leads : disk.Leads path place name number) (content : disk.content number = Record.file log)
    (short : Record.Short log) : ∃ scan, inspect (disk.content number) = .ok scan ∧
      scan.batches = log ∧
      (ofScan path number false scan).Holds (disk.changeContent number (·.resize scan.stop))
        log := by
  have kept : Record.headerLength ≤ (Record.file log).length := by
    rw [Record.length_file]
    exact Nat.le_add_right _ _
  have whole : Record.within ((Record.file log).length - Record.headerLength) log = log := by
    rw [Record.length_file, Nat.add_sub_cancel_left]
    exact Record.within_of_length_le 1 (Nat.le_refl _)
  obtain ⟨scan, inspected, batches, holds⟩ := holds_ofScan sound leads
    (content.trans List.take_length.symm) short kept
  rw [whole] at batches
  exact ⟨scan, inspected, batches, batches ▸ holds⟩

/-- A file that is there holds its log, and one that was made gets the header of an empty log. -/
theorem headed (sound : disk.Sound) (apart : disk.Apart place)
    (there : directory.place? disk = some place) (files : disk.Files place index log)
    {number : Nat} {middle : Disk}
    (opened : disk.openOrCreate (directory.path.join (journalName index)) = .ok (number, middle)) :
    let ready := if (middle.file number).length = 0 then middle.setContent number Record.header
      else middle
    disk.Aside place [journalName index] ready ∧
      ready.Leads (directory.path.join (journalName index)) place (journalName index) number ∧
      ready.content number = Record.file log := by
  have proper := proper_journalName index
  obtain ⟨aside, leads⟩ :=
    Disk.aside_openOrCreate sound apart there proper (List.mem_singleton_self _) opened
  obtain ⟨found, name, ends, -, -, cases⟩ := Disk.openOrCreate_cases opened
  obtain ⟨-, same, rfl⟩ := (ending_join proper).mp ends
  cases same.symm.trans there
  rcases cases with ⟨node, rfl⟩ | ⟨free, rfl, rfl⟩
  · have content := files.content node
    have filled : (middle.file number).length ≠ 0 := by
      rw [← FileContent.length_bytes, show (middle.file number).bytes = _ from content,
        Record.length_file]
      exact Nat.ne_of_gt (Nat.lt_of_lt_of_le (by decide) (Nat.le_add_right _ _))
    rw [if_neg filled]
    exact ⟨aside, leads, content⟩
  · have none := files.missing fun _ node => by cases free.symm.trans node
    subst none
    have empty : (Disk.file ({ disk with files := disk.files.push .empty }.link place
        (journalName index) (.file disk.files.size)) disk.files.size).length = 0 := by
      simp [Disk.file, Disk.link, FileContent.empty, FileContent.length, FileContent.lengthOf]
    rw [if_pos empty]
    refine ⟨aside.trans (Disk.aside_changeContent aside.sound aside.apart leads.node
      (List.mem_singleton_self _) _), leads.changeContent _ _, ?_⟩
    exact Disk.content_changeContent_self (aside.sound.files leads.node)

/-- A journal opens, with what is in its file, or nothing is touched. -/
theorem open_of_files (sound : disk.Sound) (apart : disk.Apart place)
    (there : directory.place? disk = some place) (files : disk.Files place index log) :
    (∃ fault, FileJournal.open disk (directory.journalPath index) = (.error fault, disk)) ∨
      ∃ journal left, FileJournal.open disk (directory.journalPath index) = (.ok journal, left) ∧
        disk.Aside place [journalName index] left ∧ journal.Fresh directory left index log := by
  have proper := proper_journalName index
  unfold FileJournal.open
  rw [journalPath_eq]
  rcases createDirectories_parent there proper with made | ⟨fault, failed⟩
  · rw [made]
    dsimp only
    cases opened : disk.openOrCreate (directory.path.join (journalName index)) with
    | error fault => exact .inl ⟨_, rfl⟩
    | ok found =>
      obtain ⟨number, middle⟩ := found
      obtain ⟨aside, leads, content⟩ := headed sound apart there files opened
      obtain ⟨scan, inspected, batches, holds⟩ :=
        holds_ofScan_file aside.sound leads content files.short
      dsimp only
      rw [inspected]
      exact .inr ⟨_, _, rfl, aside.trans (Disk.aside_changeContent aside.sound aside.apart
        leads.node (List.mem_singleton_self _) _), holds, rfl, congrArg some batches⟩
  · rw [failed]
    exact .inl ⟨_, rfl⟩

theorem openWith_of_files (sound : disk.Sound) (apart : disk.Apart place)
    (there : directory.place? disk = some place) (files : disk.Files place index log)
    (policy : FlushPolicy) :
    (∃ fault, openWith policy disk (directory.journalPath index) = (.error fault, disk)) ∨
      ∃ journal left, openWith policy disk (directory.journalPath index) = (.ok journal, left) ∧
        disk.Aside place [journalName index] left ∧ journal.Fresh directory left index log := by
  unfold openWith
  rcases open_of_files sound apart there files with
    ⟨fault, failed⟩ | ⟨journal, left, opened, aside, fresh⟩
  · rw [failed]
    exact .inl ⟨fault, rfl⟩
  · rw [opened]
    exact .inr ⟨_, left, rfl, aside, fresh.holds.withPolicy policy, fresh.path, fresh.recovered⟩

end FileJournal

end DeliveryQueue
