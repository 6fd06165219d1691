import DeliveryQueue.Proofs.Framing
import DeliveryQueue.Proofs.Names
import DeliveryQueue.Proofs.Recovery

/-!
Journals on devices that fail. An append comes to one of four things (`FileJournal.Appends`). One
that fails leaves nothing behind, as long as the device cuts back what was not written to its end
and flushes what was: just when it does not, something stays in the file
(`FileJournal.spared_append_iff`).
-/
namespace DeliveryQueue

theorem overwrite_length (bytes written : Bytes) :
    overwrite bytes bytes.length written = bytes ++ written := by
  unfold overwrite resize
  split
  · rename_i none
    rw [List.isEmpty_iff.mp none, List.append_nil]
  · simp

theorem resize_append (bytes more : Bytes) : resize (bytes ++ more) bytes.length = bytes := by
  simp [resize]

namespace Disk

/-- The same names and the same bytes in every file. -/
structure Same (disk left : Disk) : Prop where
  directories : left.directories = disk.directories
  workingDirectory : left.workingDirectory = disk.workingDirectory
  files : left.files.size = disk.files.size
  content : ∀ number, left.content number = disk.content number

theorem Same.refl (disk : Disk) : disk.Same disk := ⟨rfl, rfl, rfl, fun _ => rfl⟩

variable {disk : Disk} {number : Nat} {change : FileContent → FileContent}

theorem content_changeContent_self (inside : number < disk.files.size) :
    (disk.changeContent number change).content number = (change (disk.file number)).bytes := by
  rw [content, file_changeContent, if_pos ⟨rfl, inside⟩]

theorem content_changeContent_of_ne {other : Nat} (differs : other ≠ number) :
    (disk.changeContent number change).content other = disk.content other := by
  rw [content, file_changeContent, if_neg fun both => differs both.1, content]

/-- A change of one file that leaves its bytes. -/
theorem same_changeContent (inside : number < disk.files.size) :
    disk.Same (disk.changeContent number change) ↔
      (change (disk.file number)).bytes = disk.content number := by
  constructor
  · intro same
    rw [← content_changeContent_self inside, same.content]
  · intro kept
    refine ⟨rfl, rfl, Array.size_modify, fun other => ?_⟩
    by_cases its : other = number
    · rw [its, content_changeContent_self inside, kept]
    · exact content_changeContent_of_ne its

theorem changeContent_changeContent (disk : Disk) (number : Nat)
    (first second : FileContent → FileContent) :
    (disk.changeContent number first).changeContent number second =
      disk.changeContent number (second ∘ first) := by
  unfold changeContent
  refine congrArg (Disk.mk _ · _) (Array.ext_getElem? fun index => ?_)
  rw [Array.getElem?_modify, Array.getElem?_modify, Array.getElem?_modify]
  by_cases its : number = index
  · simp only [its, if_true, Option.map_map]
  · simp only [if_neg its]

end Disk

/-- Nothing fails on the device any more. -/
structure Device.Sound (device : Device) : Prop where
  tears : device.tears = none
  flushes : device.failFlushes = 0

/-- What the device flushes and cuts back, it does. -/
structure Device.Firm (device : Device) : Prop where
  cuts : device.failCuts = false
  flushes : device.failFlushes = 0

theorem Device.sound_sound : sound.Sound := ⟨rfl, rfl⟩

namespace FileJournal

variable {journal after : FileJournal} {disk left : Disk} {batch : Bytes}
variable {answer : Except StorageFault Unit} {fault : StorageFault}

/-- The journal stands at the end of its file. -/
structure AtEnd (journal : FileJournal) (disk : Disk) : Prop where
  inside : journal.file < disk.files.size
  position : journal.position = (disk.content journal.file).length

/-- What becomes of an append. -/
inductive Appends (journal : FileJournal) (disk : Disk) (batch : Bytes) :
    Except StorageFault Unit × FileJournal × Disk → Prop
  | locked (readOnly : journal.readOnly = true) :
    Appends journal disk batch (.error .readOnly, journal, disk)
  | heavy (writable : journal.readOnly = false) (heavy : UInt32.size ≤ batch.length) :
    Appends journal disk batch (.error (.corruption (.record .batchTooLarge)), journal, disk)
  | torn {count : Nat} {part : Bytes} (writable : journal.readOnly = false)
    (light : batch.length < UInt32.size) (tears : journal.device.tears = some count)
    (written : part = (Record.encode journal.nextId batch).take
      (min count ((Record.encode journal.nextId batch).length - 1))) :
    Appends journal disk batch (.error (.io .device), { journal with device.tears := none }.cutBack
      (disk.changeContent journal.file (·.overwrite journal.position part)) part)
  | written {flushed : Except StorageFault Unit × FileJournal} (writable : journal.readOnly = false)
    (light : batch.length < UInt32.size) (whole : journal.device.tears = none)
    (flush : (journal.pass (Record.encode journal.nextId batch)).flushIfDue = flushed) :
    Appends journal disk batch (flushed.1, flushed.2,
      disk.changeContent journal.file
        (·.overwrite journal.position (Record.encode journal.nextId batch)))

theorem appends_append (journal : FileJournal) (disk : Disk) (batch : Bytes) :
    journal.Appends disk batch (journal.append disk batch) := by
  unfold append
  split
  · rename_i locked
    exact .locked locked
  · rename_i writable
    rw [Bool.not_eq_true] at writable
    split
    · rename_i heavy
      exact .heavy writable heavy
    · rename_i light
      rw [Nat.not_le] at light
      cases tears : journal.device.tears with
      | none =>
        simp only [Device.write, tears]
        exact .written writable light tears rfl
      | some count =>
        simp only [Device.write, tears]
        exact .torn writable light tears rfl

/-! Flushing -/

theorem flushIfDue_eq_error (failed : journal.flushIfDue.1 = .error fault) :
    fault = .io .device ∧ journal.flushDue = true ∧ journal.device.failFlushes ≠ 0 := by
  unfold flushIfDue at failed
  split at failed
  · rename_i due
    unfold flush at failed
    cases fails : journal.device.failFlushes with
    | zero => simp [Device.flush, fails] at failed
    | succ left =>
      simp only [Device.flush, fails] at failed
      exact ⟨(Except.error.inj failed).symm, due, Nat.succ_ne_zero left⟩
  · cases failed

theorem flushIfDue_of_fails (due : journal.flushDue = true)
    (fails : journal.device.failFlushes ≠ 0) :
    journal.flushIfDue.1 = .error (.io .device) := by
  obtain ⟨left, more⟩ := Nat.exists_eq_succ_of_ne_zero fails
  simp [flushIfDue, due, flush, Device.flush, more]

/-! Appends that succeed -/

/-- Flushing, should it be due, does not fail. -/
def Flushes (journal : FileJournal) : Prop :=
  journal.flushDue = true → journal.device.failFlushes = 0

/-- The journal takes a batch. -/
structure Takes (journal : FileJournal) (batch : Bytes) : Prop where
  writable : journal.readOnly = false
  light : batch.length < UInt32.size
  whole : journal.device.tears = none
  flushes : (journal.pass (Record.encode journal.nextId batch)).Flushes

/-- When it is flushed next may be up to the device, as long as flushing does not fail there. -/
structure Passed (journal : FileJournal) (record : Bytes) (after : FileJournal) : Prop where
  frame : ∃ unflushed lastFlush, after = { journal.pass record with unflushed, lastFlush }
  flushes : journal.device.failFlushes ≠ 0 → after = journal.pass record

theorem flushIfDue_of_flushes (flushes : journal.Flushes) : ∃ unflushed lastFlush,
    journal.flushIfDue = (.ok (), { journal with unflushed, lastFlush }) ∧
      (journal.device.failFlushes ≠ 0 → { journal with unflushed, lastFlush } = journal) := by
  unfold flushIfDue
  split
  · rename_i due
    have sound := flushes due
    simp only [flush, Device.flush, sound]
    exact ⟨_, _, rfl, fun fails => absurd rfl fails⟩
  · exact ⟨_, _, rfl, fun _ => rfl⟩

theorem append_of_takes (takes : journal.Takes batch) (disk : Disk) : ∃ after,
    journal.Passed (Record.encode journal.nextId batch) after ∧
      journal.append disk batch = (.ok (), after, disk.changeContent journal.file
        (·.overwrite journal.position (Record.encode journal.nextId batch))) := by
  have appends := journal.appends_append disk batch
  generalize journal.append disk batch = done at appends
  cases appends with
  | locked readOnly => cases takes.writable.symm.trans readOnly
  | heavy _ heavy => exact absurd takes.light (Nat.not_lt.mpr heavy)
  | torn _ _ tears => cases takes.whole.symm.trans tears
  | written _ _ _ flush =>
    obtain ⟨unflushed, lastFlush, flushed, due⟩ := flushIfDue_of_flushes takes.flushes
    cases flush.symm.trans flushed
    exact ⟨_, ⟨⟨unflushed, lastFlush, rfl⟩, due⟩, rfl⟩

theorem takes_of_append (taken : (journal.append disk batch).1 = .ok ()) :
    journal.Takes batch := by
  have appends := journal.appends_append disk batch
  generalize journal.append disk batch = done at appends taken
  cases appends with
  | locked | heavy | torn => cases taken
  | written writable light whole flush =>
    refine ⟨writable, light, whole, fun due => Decidable.byContradiction fun fails => ?_⟩
    have failed := flushIfDue_of_fails due fails
    rw [flush] at failed
    cases taken.symm.trans failed

/-! Devices on which nothing fails -/

theorem append_of_sound (sound : journal.device.Sound) (writable : journal.readOnly = false)
    (light : batch.length < UInt32.size) (disk : Disk) : ∃ unflushed lastFlush,
    journal.append disk batch = (.ok (),
      { journal.pass (Record.encode journal.nextId batch) with unflushed, lastFlush },
      disk.changeContent journal.file
        (·.overwrite journal.position (Record.encode journal.nextId batch))) := by
  obtain ⟨_, ⟨⟨unflushed, lastFlush, rfl⟩, _⟩, done⟩ :=
    append_of_takes ⟨writable, light, sound.tears, fun _ => sound.flushes⟩ disk
  exact ⟨unflushed, lastFlush, done⟩

theorem draft_of_sound {device : Device} (sound : device.Sound) (record : Bytes) :
    draft device record = (.ok (), Record.header ++ record, device) := by
  simp only [draft, Device.flush, sound.flushes, Device.write, sound.tears]

/-- An append that fails there did not get to the file. -/
theorem append_of_error_of_sound (sound : journal.device.Sound)
    (failed : (journal.append disk batch).1 = .error fault) :
    (journal.append disk batch).2 = (journal, disk) := by
  have appends := journal.appends_append disk batch
  generalize journal.append disk batch = done at appends failed
  cases appends with
  | locked | heavy => rfl
  | torn _ _ tears => cases sound.tears.symm.trans tears
  | written _ _ _ flush =>
    exact absurd sound.flushes (flushIfDue_eq_error ((congrArg Prod.fst flush).trans failed)).2.2

/-! Devices that fail -/

/-- An append would leave something in the file although it fails: the whole record, if only the
flush fails, or its front, if that cannot be cut off. -/
def Leaks (journal : FileJournal) (batch : Bytes) : Prop :=
  journal.readOnly = false ∧ batch.length < UInt32.size ∧
    match journal.device.tears with
    | none => (journal.pass (Record.encode journal.nextId batch)).flushDue = true ∧
        journal.device.failFlushes ≠ 0
    | some count => journal.device.failCuts = true ∧ count ≠ 0

theorem not_leaks_of_firm (firm : journal.device.Firm) (batch : Bytes) : ¬ journal.Leaks batch := by
  rintro ⟨_, _, leaks⟩
  split at leaks
  · exact leaks.2 firm.flushes
  · exact Bool.noConfusion (firm.cuts.symm.trans leaks.1)

theorem content_append (ending : journal.AtEnd disk) (written : Bytes) :
    (disk.changeContent journal.file (·.overwrite journal.position written)).content journal.file =
      disk.content journal.file ++ written := by
  rw [Disk.content_changeContent_self ending.inside, FileContent.bytes_overwrite, ending.position]
  exact overwrite_length _ written

theorem same_write_iff (ending : journal.AtEnd disk) (written : Bytes) :
    disk.Same (disk.changeContent journal.file (·.overwrite journal.position written)) ↔
      written = [] := by
  have longer := content_append ending written
  rw [Disk.content_changeContent_self ending.inside] at longer
  rw [Disk.same_changeContent ending.inside, longer]
  exact List.append_right_eq_self

/-- What was written is cut off, and all is as it was. -/
theorem same_cut (ending : journal.AtEnd disk) (part : Bytes) :
    disk.Same ((disk.changeContent journal.file (·.overwrite journal.position part)).changeContent
      journal.file (·.resize journal.position)) := by
  rw [Disk.changeContent_changeContent, Disk.same_changeContent ending.inside]
  have written := content_append ending part
  rw [Disk.content_changeContent_self ending.inside] at written
  rw [Function.comp_apply, FileContent.bytes_resize, written, ending.position, resize_append]

/-- What is left of the journal and its file is as it was, but for the device. -/
structure Spared (journal : FileJournal) (disk : Disk) (after : FileJournal × Disk) : Prop where
  journal : ∃ device, after.1 = { journal with device }
  files : disk.Same after.2

theorem encode_ne_nil (id : UInt64) (batch : Bytes) : Record.encode id batch ≠ [] := by
  intro empty
  have length := Record.length_encode id batch
  rw [empty, Record.prefaceLength, List.length_nil] at length
  omega

/-- An append that fails leaves the journal and its file as they were, just when it does not
leak. -/
theorem spared_append_iff (ending : journal.AtEnd disk)
    (failed : (journal.append disk batch).1 = .error fault) :
    journal.Spared disk (journal.append disk batch).2 ↔ ¬ journal.Leaks batch := by
  have appends := journal.appends_append disk batch
  generalize journal.append disk batch = done at appends failed
  cases appends with
  | locked readOnly =>
    refine iff_of_true ⟨⟨journal.device, rfl⟩, .refl disk⟩ ?_
    rintro ⟨writable, -⟩
    cases writable.symm.trans readOnly
  | heavy writable heavy =>
    exact iff_of_true ⟨⟨journal.device, rfl⟩, .refl disk⟩ fun leaks =>
      absurd leaks.2.1 (Nat.not_lt.mpr heavy)
  | @torn count part writable light tears written =>
    have leaks : journal.Leaks batch ↔ journal.device.failCuts = true ∧ count ≠ 0 := by
      simp only [Leaks, writable, light, tears, true_and]
    rw [leaks]
    cases cuts : journal.device.failCuts with
    | false =>
      refine iff_of_true ?_ (by simp)
      simp only [cutBack, cuts]
      exact ⟨⟨_, rfl⟩, same_cut ending part⟩
    | true =>
      have front : part = [] ↔ count = 0 := by
        have some : 1 < (Record.encode journal.nextId batch).length := by
          rw [Record.length_encode]
          simp [Record.prefaceLength]
          omega
        rw [written, List.take_eq_nil_iff]
        have filled := encode_ne_nil journal.nextId batch
        simp only [filled, or_false]
        omega
      simp only [cutBack, cuts, if_true, true_and, not_not]
      constructor
      · exact fun spared => front.mp ((same_write_iff ending part).mp spared.files)
      · intro none
        refine ⟨⟨{ journal.device with tears := .none, failCuts := true }, ?_⟩,
          (same_write_iff ending part).mpr (front.mpr none)⟩
        rw [front.mpr none, List.length_nil, Nat.add_zero]
  | written writable light whole flush =>
    obtain ⟨-, due, fails⟩ := flushIfDue_eq_error ((congrArg Prod.fst flush).trans failed)
    refine iff_of_false ?_ ?_
    · intro spared
      exact encode_ne_nil _ _ ((same_write_iff ending _).mp spared.files)
    · rw [not_not, Leaks, whole]
      exact ⟨writable, light, due, fails⟩

end FileJournal

namespace Journal

/-- A journal in a file stands at its end. -/
def AtEnd : Journal → Disk → Prop
  | memory _, _ => True
  | file log, disk => log.AtEnd disk

/-- Nothing fails on the device of a journal in a file. -/
def Sound : Journal → Prop
  | memory _ => True
  | file log => log.device.Sound

/-- What the device of a journal in a file flushes and cuts back, it does. -/
def Firm : Journal → Prop
  | memory _ => True
  | file log => log.device.Firm

/-- An append would leave something behind although it fails. -/
def Leaks : Journal → Bytes → Prop
  | memory _, _ => False
  | file log, batch => log.Leaks batch

/-- The journal on another device. A journal in memory is on none. -/
def onDevice (device : Device) : Journal → Journal
  | memory log => memory log
  | file log => file { log with device }

/-- The journal after a call is as it was, but for the device, and so are all files. -/
structure Spared (journal : Journal) (disk : Disk) (after : Journal) (left : Disk) : Prop where
  journal : ∃ device, after = journal.onDevice device
  files : disk.Same left

variable {journal : Journal} {disk : Disk} {batch : Bytes} {batches : List Bytes}
variable {fault : StorageFault}

theorem exists_onDevice (journal : Journal) : ∃ device, journal = journal.onDevice device := by
  cases journal with
  | memory log => exact ⟨.sound, rfl⟩
  | file log => exact ⟨log.device, rfl⟩

theorem Spared.refl (journal : Journal) (disk : Disk) : journal.Spared disk journal disk :=
  ⟨journal.exists_onDevice, .refl disk⟩

theorem sound_of_held? (held : journal.held? = some batches) : journal.Sound := by
  cases journal with
  | memory log => trivial
  | file log => cases held

theorem not_leaks_of_firm (firm : journal.Firm) (batch : Bytes) : ¬ journal.Leaks batch := by
  cases journal with
  | memory log => exact id
  | file log => exact FileJournal.not_leaks_of_firm firm batch

/-- Where nothing fails but the journal refuses a batch, it stays as it is, and so does the
disk. -/
theorem append_of_error_of_sound (sound : journal.Sound)
    (failed : (journal.append disk batch).answer = .error fault) :
    journal.append disk batch = ⟨.error fault, journal, disk⟩ := by
  cases journal with
  | memory log =>
    unfold append at failed ⊢
    dsimp only at failed ⊢
    split at failed
    · cases failed
    · cases failed
      rfl
  | file log =>
    have failed : (log.append disk batch).1 = .error fault := failed
    have same := FileJournal.append_of_error_of_sound sound failed
    simp only [append, failed, same]

/-- An append that fails leaves nothing behind, just when it does not leak. -/
theorem spared_append_iff (ending : journal.AtEnd disk)
    (failed : (journal.append disk batch).answer = .error fault) :
    journal.Spared disk (journal.append disk batch).journal (journal.append disk batch).disk ↔
      ¬ journal.Leaks batch := by
  cases journal with
  | memory log =>
    have sound : (memory log).Sound := trivial
    rw [append_of_error_of_sound sound failed]
    exact iff_of_true (.refl _ disk) id
  | file log =>
    refine Iff.trans ?_ (FileJournal.spared_append_iff ending failed)
    constructor
    · rintro ⟨⟨device, same⟩, files⟩
      exact ⟨⟨device, Journal.file.inj same⟩, files⟩
    · rintro ⟨⟨device, same⟩, files⟩
      exact ⟨⟨device, congrArg file same⟩, files⟩

end Journal

end DeliveryQueue
