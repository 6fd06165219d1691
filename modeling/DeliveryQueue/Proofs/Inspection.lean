import DeliveryQueue.Proofs.Frames
import DeliveryQueue.Proofs.LogFile

/-!
Opening a journal file, whatever its bytes are (`FileJournal.open_answers_contents`). Damage is
reported and leaves the disk alone. Otherwise the intact records up to the first incomplete one are
shown, and the file is cut behind them; it opens the same way from then on. A reader who may not
write sees the same records or the same damage.
-/
namespace DeliveryQueue

/-- Cutting a file to the length that it has changes nothing. -/
theorem FileContent.resize_self (content : FileContent) :
    content.resize content.length = content := by
  have same (runs : List Run) : takeOf (lengthOf runs) runs = runs := by
    induction runs with
    | nil => rfl
    | cons run runs ih =>
      rw [takeOf, lengthOf, if_pos (Nat.le_add_right _ _), Nat.add_sub_cancel_left, ih]
  rw [resize, if_neg (Nat.lt_irrefl _), length, same]

/-- Changing a file to what it holds already changes nothing. -/
theorem Disk.changeContent_self {disk : Disk} {number : Nat} {change : FileContent → FileContent}
    (same : change (disk.file number) = disk.file number) :
    disk.changeContent number change = disk := by
  have files : disk.files.modify number change = disk.files := by
    refine Array.ext_getElem? fun other => ?_
    rw [Array.getElem?_modify]
    split
    · rename_i here
      subst here
      cases there : disk.files[number]? with
      | none => rfl
      | some content =>
        have held : disk.file number = content := by rw [file, there]; rfl
        rw [Option.map_some, ← held, same]
    · rfl
  rw [changeContent, files]

theorem Record.Headed.append_ne_nil {start : Bytes} (headed : Headed start) (rest : Bytes) :
    start ++ rest ≠ [] := by
  intro empty
  have none := congrArg List.length empty
  rw [List.length_append, headed.full, headerLength, List.length_nil] at none
  omega

namespace Record.Means

variable {content kept : Bytes} {frames : List Frame} {fault : Fault}

/-- An empty file is not damaged. -/
theorem ne_nil (means : Means content (.error fault)) : content ≠ [] := by
  cases means with
  | tooShort some => exact some
  | wrongMagic long | unknownVersion long =>
    rintro rfl
    exact Nat.not_succ_le_zero _ long
  | damaged headed =>
    rw [List.append_assoc]
    exact headed.append_ne_nil _

/-- An empty file holds no records, and gets its header. -/
theorem of_nil (means : Means content (.ok (kept, frames))) (none : content = []) :
    kept = header ∧ frames = [] := by
  cases means with
  | empty => exact ⟨rfl, rfl⟩
  | whole headed =>
    rw [List.append_assoc] at none
    exact absurd none (headed.append_ne_nil _)

/-- What is to be kept of a file that has its header is the front of it. -/
theorem kept_prefix (means : Means content (.ok (kept, frames))) (some : content ≠ []) :
    kept <+: content := by
  cases means with
  | empty => exact absurd rfl some
  | whole => exact List.prefix_append ..

/-- What is kept has its header, and means the same records again. -/
theorem again (means : Means content (.ok (kept, frames))) :
    kept ≠ [] ∧ Means kept (.ok (kept, frames)) := by
  cases means with
  | empty =>
    have whole : Means (header ++ framed [] ++ []) (.ok (header ++ framed [], [])) :=
      .whole headed_header (List.forall_mem_nil _) torn_nil
    exact ⟨by decide, whole⟩
  | @whole start _ _ headed intact =>
    have whole := Means.whole headed intact torn_nil
    rw [List.append_nil] at whole
    exact ⟨headed.append_ne_nil _, whole⟩

end Record.Means

namespace FileJournal

open Record

/-- The journal hands out these batches in its first replay, and counts them. -/
structure Shows (journal : FileJournal) (disk : Disk) (batches : List Bytes) : Prop where
  replayed : (journal.replay disk).1 = .ok batches
  counted : journal.records = batches.length

theorem shows_ofScan (path : Path) (file : Nat) (readOnly : Bool) (scan : Scan) (disk : Disk) :
    (ofScan path file readOnly scan).Shows disk scan.batches := ⟨rfl, rfl⟩

/-- A journal opens: it shows batches, keeps a part of its file and leaves all else on the disk
alone. From then on it opens to the same and leaves the disk alone. A reader sees the same without
any of it. -/
structure OpensTo (disk : Disk) (path : Path) (number : Nat) (kept : Bytes) (batches : List Bytes)
    (after : Disk) : Prop where
  opened : ∃ journal, FileJournal.open disk path = (.ok journal, after) ∧
    journal.Shows after batches
  content : after.content number = kept
  others : ∀ other, other ≠ number → after.file other = disk.file other
  rest : after = { disk with files := after.files }
  again : ∃ journal, FileJournal.open after path = (.ok journal, after) ∧
    journal.Shows after batches
  readOnly : ∃ journal, openReadOnly disk path = .ok journal ∧ journal.Shows disk batches

variable {disk : Disk} {path : Path} {directory number : Nat} {name : String}
variable {kept : Bytes} {frames : List Frame} {fault : Fault}

/-- An empty file gets its header first. -/
def ready (disk : Disk) (number : Nat) : Disk :=
  if disk.content number = [] then disk.setContent number header else disk

theorem sound_ready (sound : disk.Sound) (number : Nat) : (ready disk number).Sound := by
  unfold ready
  split
  · exact sound.changeContent number _
  · exact sound

theorem leads_ready (leads : disk.Leads path directory name number) :
    (ready disk number).Leads path directory name number := by
  unfold ready
  split
  · exact leads.changeContent number _
  · exact leads

/-- Opening looks at the length of the file to tell whether it is empty. -/
theorem ready_eq (disk : Disk) (number : Nat) :
    (if (disk.file number).length = 0 then disk.setContent number header else disk) =
      ready disk number := by
  have empty : (disk.file number).length = 0 ↔ disk.content number = [] := by
    rw [Disk.content, ← FileContent.length_bytes, List.length_eq_zero_iff]
  by_cases none : disk.content number = []
  · rw [ready, if_pos none, if_pos (empty.mpr none)]
  · rw [ready, if_neg none, if_neg fun zero => none (empty.mp zero)]

theorem open_of_inspect_error {fault : StorageFault}
    (leads : disk.Leads path directory name number)
    (inspected : inspect ((ready disk number).content number) = .error fault) :
    FileJournal.open disk path = (.error fault, ready disk number) := by
  unfold FileJournal.open
  rw [leads.createDirectories]
  simp only [leads.openOrCreate, ready_eq, inspected]

theorem open_of_inspect_ok {scan : Scan} (leads : disk.Leads path directory name number)
    (inspected : inspect ((ready disk number).content number) = .ok scan) :
    FileJournal.open disk path = (.ok (ofScan path number false scan),
      (ready disk number).changeContent number (·.resize scan.stop)) := by
  unfold FileJournal.open
  rw [leads.createDirectories]
  simp only [leads.openOrCreate, ready_eq, inspected]

theorem openReadOnly_of_leads (leads : disk.Leads path directory name number) :
    openReadOnly disk path =
      if disk.content number = [] then .ok (ofScan path number true ⟨[], 1, 0, none⟩)
      else ofScan path number true <$> inspect (disk.content number) := by
  unfold openReadOnly
  rw [leads.resolve]
  simp only [List.isEmpty_iff]

/-- Damage is reported, and the disk is left alone. -/
theorem fails_of_means (leads : disk.Leads path directory name number)
    (means : Means (disk.content number) (.error fault)) :
    FileJournal.open disk path = (.error (.corruption (.record fault)), disk) ∧
      openReadOnly disk path = .error (.corruption (.record fault)) := by
  have inspected := inspect_of_error means
  have filled : ready disk number = disk := if_neg means.ne_nil
  constructor
  · rw [open_of_inspect_error leads (filled.symm ▸ inspected), filled]
  · rw [openReadOnly_of_leads leads, if_neg means.ne_nil, inspected]
    rfl

section Opening
variable (sound : disk.Sound) (leads : disk.Leads path directory name number)
  (means : Means (disk.content number) (.ok (kept, frames)))
include sound leads means

/-- With its header, the file means what it meant without. -/
theorem means_ready : Means ((ready disk number).content number) (.ok (kept, frames)) ∧
    (ready disk number).content number ≠ [] := by
  unfold ready
  split
  · rename_i none
    obtain ⟨rfl, rfl⟩ := means.of_nil none
    obtain ⟨filled, again⟩ := means.again
    have bytes : (disk.setContent number header).content number = header :=
      Disk.content_changeContent_self (sound.files leads.node)
    rw [bytes]
    exact ⟨again, filled⟩
  · rename_i some
    exact ⟨means, some⟩

theorem open_of_means :
    FileJournal.open disk path = (.ok (ofScan path number false
        ⟨frames.map Frame.batch, nextNumber 1 frames, kept.length, none⟩),
      (ready disk number).changeContent number (·.resize kept.length)) := by
  obtain ⟨same, filled⟩ := means_ready sound leads means
  exact open_of_inspect_ok leads (inspect_of_ok same filled)

/-- What is kept is a front part of the file. -/
theorem content_of_means :
    ((ready disk number).changeContent number (·.resize kept.length)).content number = kept := by
  obtain ⟨same, filled⟩ := means_ready sound leads means
  obtain ⟨tail, parts⟩ := same.kept_prefix filled
  have inside := (sound_ready sound number).files (leads_ready leads).node
  have bytes : ((ready disk number).file number).bytes = kept ++ tail := parts.symm
  rw [Disk.content_changeContent_self inside, FileContent.bytes_resize, bytes, resize,
    List.take_left' rfl]
  simp

omit sound in
theorem openReadOnly_of_means : ∃ journal, openReadOnly disk path = .ok journal ∧
    journal.Shows disk (frames.map Frame.batch) := by
  rw [openReadOnly_of_leads leads]
  split
  · rename_i none
    obtain ⟨-, rfl⟩ := means.of_nil none
    exact ⟨_, rfl, shows_ofScan _ _ _ _ _⟩
  · rename_i some
    rw [inspect_of_ok means some]
    exact ⟨_, rfl, shows_ofScan _ _ _ _ _⟩

end Opening

/-- All that opening changes on the disk is files. -/
theorem ready_changeContent (disk : Disk) (number : Nat) (change : FileContent → FileContent) :
    (ready disk number).changeContent number change =
      { disk with files := ((ready disk number).changeContent number change).files } := by
  unfold ready
  split <;> rfl

/-- All that opening changes of the files is one. -/
theorem file_ready_changeContent (disk : Disk) (number length : Nat) {other : Nat}
    (apart : other ≠ number) :
    ((ready disk number).changeContent number (·.resize length)).file other = disk.file other := by
  rw [Disk.file_changeContent, if_neg fun here => apart here.1, ready]
  split
  · rw [Disk.setContent, Disk.file_changeContent, if_neg fun here => apart here.1]
  · rfl

/-- Opening a file is well defined on whatever bytes it holds. -/
theorem open_answers_contents (sound : disk.Sound)
    (leads : disk.Leads path directory name number) :
    (∃ outcome, Means (disk.content number) outcome) ∧
      (∀ fault, Means (disk.content number) (.error fault) →
        FileJournal.open disk path = (.error (.corruption (.record fault)), disk) ∧
          openReadOnly disk path = .error (.corruption (.record fault))) ∧
      ∀ kept frames, Means (disk.content number) (.ok (kept, frames)) →
        ∃ after, OpensTo disk path number kept (frames.map Frame.batch) after := by
  refine ⟨exists_means _, ?_, ?_⟩
  · exact fun fault means => fails_of_means leads means
  · intro kept frames means
    let after := (ready disk number).changeContent number (·.resize kept.length)
    have content : after.content number = kept := content_of_means sound leads means
    obtain ⟨filled, again⟩ := means.again
    -- the file has its header now, and the length that it is cut to
    have soundNow : after.Sound := (sound_ready sound number).changeContent number _
    have leadsNow : after.Leads path directory name number :=
      (leads_ready leads).changeContent number _
    have meansNow : Means (after.content number) (.ok (kept, frames)) := content.symm ▸ again
    have same : (ready after number).changeContent number (·.resize kept.length) = after := by
      have length : (after.file number).length = kept.length := by
        rw [← FileContent.length_bytes, ← content, Disk.content]
      rw [ready, if_neg (content ▸ filled)]
      refine Disk.changeContent_self ?_
      rw [← length, FileContent.resize_self]
    have opensAgain := open_of_means soundNow leadsNow meansNow
    rw [same] at opensAgain
    exact ⟨after, {
      opened := ⟨_, open_of_means sound leads means, shows_ofScan _ _ _ _ _⟩
      content
      others := fun other apart => file_ready_changeContent disk number _ apart
      rest := ready_changeContent disk number _
      again := ⟨_, opensAgain, shows_ofScan _ _ _ _ _⟩
      readOnly := openReadOnly_of_means leads means }⟩

/-- The disk with these bytes in the file of the journal. -/
def holding (content : Bytes) : Disk := Disk.withJournal.setContent 0 content

theorem holding_holds : ∃ directory name, ∀ content, (holding content).Sound ∧
    (holding content).Leads .log directory name 0 ∧ (holding content).content 0 = content := by
  have holds := (open_blank Disk.empty_sound Disk.empty_blank open_fresh).1
  obtain ⟨directory, name, leads⟩ := holds.leads
  exact ⟨directory, name, fun content => ⟨holds.sound.changeContent 0 _, leads.changeContent 0 _,
    Disk.content_changeContent_self holds.inside⟩⟩

/-- One record and the beginning of another open to the one record. The record with another checksum
is damage. -/
theorem open_answers_contents_holding :
    let record : Frame := .ofBatch 1 [7, 8] (by decide)
    let other : Frame := { record with checksum := 0 }
    let torn := holding (header ++ record.bytes ++ [1, 2, 3])
    let damaged := holding (header ++ other.bytes)
    (∃ after, OpensTo torn .log 0 (header ++ record.bytes) [[7, 8]] after) ∧
      FileJournal.open damaged .log =
        (.error (.corruption (.record (.wrongChecksum 32 0 record.checksum))), damaged) := by
  intro record other torn damaged
  obtain ⟨directory, name, holds⟩ := holding_holds
  constructor
  · obtain ⟨sound, leads, bytes⟩ := holds (header ++ record.bytes ++ [1, 2, 3])
    obtain ⟨-, -, shows⟩ := open_answers_contents sound leads
    have one : framed [record] = record.bytes := List.append_nil _
    have means : Means (header ++ framed [record] ++ [1, 2, 3])
        (.ok (header ++ framed [record], [record])) :=
      .whole headed_header (List.forall_mem_singleton.mpr rfl) (torn_of_few (by decide))
    rw [one] at means
    exact shows _ [record] (bytes.symm ▸ means)
  · obtain ⟨sound, leads, bytes⟩ := holds (header ++ other.bytes)
    obtain ⟨-, fails, -⟩ := open_answers_contents sound leads
    have broken : ¬ other.Intact := by
      unfold Frame.Intact
      decide +kernel
    have means : Means (header ++ framed [] ++ (other.bytes ++ []))
        (.error (.wrongChecksum 32 0 record.checksum)) :=
      .damaged headed_header (List.forall_mem_nil _) broken
    have none : header ++ framed [] = header := List.append_nil _
    rw [none, List.append_nil] at means
    exact (fails _ (bytes.symm ▸ means)).1

end FileJournal

end DeliveryQueue
