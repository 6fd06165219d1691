import DeliveryQueue.Proofs.Damage

/-!
Damage to the length of a record. No checksum covers a length, so the bytes behind the preface are
cut into records anew, from the changed length on. If the length reaches beyond the end of the file,
the record is taken for an incomplete one, and all records behind it are cut off with it. Opening
keeps all batches or reports corruption exactly if the length stays in the file and what it covers
has another checksum, or damage follows (`FileJournal.open_keeps_all_iff`).
-/
namespace DeliveryQueue

/-- As many other bytes in the place of a part. -/
theorem Altered.of_append (front rest : Bytes) {part changed : Bytes}
    (length : changed.length = part.length) (other : changed ≠ part) :
    Altered front.length (front.length + part.length) (front ++ part ++ rest)
      (front ++ changed ++ rest) where
  length := by simp only [List.length_append, length]
  outside place apart := by
    rcases Nat.lt_or_ge place front.length with early | late
    · simp only [List.append_assoc, List.getElem?_append_left early]
    · have behind : (front ++ changed).length ≤ place := by
        rw [List.length_append, length]
        omega
      have same : (front ++ part).length = (front ++ changed).length := by
        rw [List.length_append, List.length_append, length]
      rw [List.getElem?_append_right behind, List.getElem?_append_right (same ▸ behind), same]
  changed same := by
    rw [List.append_assoc, List.append_assoc, List.append_cancel_left_eq,
      List.append_cancel_right_eq] at same
    exact other same

namespace Record

/-- The bytes before a batch of this length. -/
def prefaceOf (id : UInt64) (length : Nat) (checksum : UInt32) : Bytes :=
  littleEndian 8 id.toNat ++ littleEndian 4 length ++ littleEndian 4 checksum.toNat

/-- Behind intact records stands one that is not. -/
def Harmed (bytes : Bytes) : Prop :=
  ∃ (frames : List Frame) (frame : Frame) (rest : Bytes), (∀ other ∈ frames, other.Intact) ∧
    ¬ frame.Intact ∧ bytes = framed frames ++ (frame.bytes ++ rest)

variable {frame : Frame} {frames front back : List Frame} {start body tail other : Bytes}
variable {id : UInt64} {checksum : UInt32} {length : Nat}

/-- A damaged record behind intact ones is what damages a file. -/
theorem Harmed.means (harmed : Harmed body) (headed : Headed start) :
    ∃ fault, Means (start ++ body) (.error fault) := by
  obtain ⟨frames, frame, rest, intact, broken, rfl⟩ := harmed
  rw [← List.append_assoc]
  exact ⟨_, .damaged headed intact broken⟩

/-- Intact records up to an incomplete one are not harmed. -/
theorem not_harmed_of_torn (intact : ∀ other ∈ frames, other.Intact) (torn : Torn tail) :
    ¬ Harmed (framed frames ++ tail) := by
  intro harmed
  obtain ⟨fault, damaged⟩ := harmed.means headed_header
  have whole := Means.whole headed_header intact torn
  rw [List.append_assoc] at whole
  -- a file with these bytes would be read in two ways
  cases (FileJournal.inspect_of_error damaged).symm.trans
    (FileJournal.inspect_of_ok whole (headed_header.append_ne_nil _))

/-- What is not harmed is intact records up to an incomplete one. -/
theorem exists_frames_of_not_harmed (fine : ¬ Harmed body) :
    ∃ (frames : List Frame) (tail : Bytes), body = framed frames ++ tail ∧
      (∀ other ∈ frames, other.Intact) ∧ Torn tail := by
  obtain ⟨frames, tail, rfl, intact, torn | ⟨frame, rest, broken, rfl⟩⟩ := exists_frames body
  · exact ⟨frames, tail, rfl, intact, torn⟩
  · exact absurd ⟨frames, frame, rest, intact, broken, rfl⟩ fine

theorem harmed_bytes_append_iff : Harmed (frame.bytes ++ body) ↔ (frame.Intact → Harmed body) := by
  constructor
  · intro harmed intact
    by_contra fine
    obtain ⟨frames, tail, rfl, others, torn⟩ := exists_frames_of_not_harmed fine
    rw [← List.append_assoc, ← framed_cons] at harmed
    exact not_harmed_of_torn (List.forall_mem_cons.mpr ⟨intact, others⟩) torn harmed
  · intro later
    by_cases intact : frame.Intact
    · obtain ⟨frames, broken, rest, others, harm, rfl⟩ := later intact
      refine ⟨frame :: frames, broken, rest, List.forall_mem_cons.mpr ⟨intact, others⟩, harm, ?_⟩
      rw [framed_cons, List.append_assoc]
    · exact ⟨[], frame, body, List.forall_mem_nil _, intact, rfl⟩

/-- Damage behind records is damage, and so are the records unless they are intact. -/
theorem harmed_framed_append_iff :
    Harmed (framed frames ++ body) ↔ ((∀ other ∈ frames, other.Intact) → Harmed body) := by
  induction frames with
  | nil => exact (imp_iff_right (List.forall_mem_nil _)).symm
  | cons frame frames ih =>
    rw [framed_cons, List.append_assoc, harmed_bytes_append_iff, ih, List.forall_mem_cons,
      and_imp]

/-! What is read with another length -/

/-- Only the length field of a record is changed: it tells another length. -/
theorem Frame.exists_length (frame : Frame) (altered : Altered 8 12 frame.bytes other) :
    ∃ length, length < UInt32.size ∧ length ≠ frame.batch.length ∧
      other = prefaceOf frame.id length frame.checksum ++ frame.batch := by
  let front := littleEndian 8 frame.id.toNat
  let written := littleEndian 4 frame.batch.length
  let rest := littleEndian 4 frame.checksum.toNat ++ frame.batch
  have eight : front.length = 8 := length_littleEndian 8 _
  have four : written.length = 4 := length_littleEndian 4 _
  have parts : frame.bytes = front ++ written ++ rest := by
    rw [Frame.bytes, Frame.preface, List.append_assoc]
  have here : Altered (front.length + 0) (front.length + 4) (front ++ written ++ rest) other := by
    rw [eight, ← parts]
    exact altered
  obtain ⟨changed, change, rfl⟩ := here.inside (Nat.le_of_eq four.symm)
  have full : changed.length = 4 := change.length.trans four
  have again : littleEndian 4 (ofLittleEndian changed) = changed :=
    full ▸ littleEndian_ofLittleEndian changed
  have small : ofLittleEndian changed < span 4 := full ▸ ofLittleEndian_lt changed
  refine ⟨ofLittleEndian changed, small, fun same => change.changed ?_, ?_⟩
  · rw [← again, same]
  · rw [prefaceOf, again, List.append_assoc (front ++ changed)]

theorem length_prefaceOf : (prefaceOf id length checksum).length = prefaceLength := by
  simp [prefaceOf, prefaceLength]

variable (id checksum)

theorem read_prefaceOf (small : length < UInt32.size) (rest : Bytes) :
    ofLittleEndian (((prefaceOf id length checksum ++ rest).drop 8).take 4) = length := by
  rw [prefaceOf, List.append_assoc, List.append_assoc, List.drop_left' (length_littleEndian 8 _),
    List.take_left' (length_littleEndian 4 _), ofLittleEndian_littleEndian small]

/-- A record that is read there has the length that is told there. -/
theorem length_of_bytes_eq {rest : Bytes} (small : length < UInt32.size)
    (same : frame.bytes ++ rest = prefaceOf id length checksum ++ body) :
    frame.batch.length = length := by
  have its := read_prefaceOf frame.id frame.checksum frame.short (frame.batch ++ rest)
  rw [← List.append_assoc] at its
  rw [← read_prefaceOf id checksum small body, ← same]
  exact its.symm

/-- A length beyond the end makes the record incomplete. -/
theorem torn_of_overrun (small : length < UInt32.size) (beyond : body.length < length) :
    Torn (prefaceOf id length checksum ++ body) := by
  intro frame rest same
  have its := length_of_bytes_eq id checksum small same.symm
  have sizes := congrArg List.length same
  rw [List.length_append, List.length_append, length_prefaceOf, frame.length_bytes] at sizes
  omega

/-- A length that stays in the file makes a record of so many bytes. -/
theorem exists_read (small : length < UInt32.size) (within : length ≤ body.length) :
    ∃ frame : Frame, frame.batch = body.take length ∧ frame.checksum = checksum ∧
      prefaceOf id length checksum ++ body = frame.bytes ++ body.drop length := by
  have size : (body.take length).length = length := List.length_take_of_le within
  refine ⟨⟨id, checksum, body.take length, size.symm ▸ small⟩, rfl, rfl, ?_⟩
  rw [Frame.bytes, Frame.preface, List.append_assoc]
  simp only [size, List.take_append_drop]
  rfl

/-- Only a length that stays in the file can bring out damage, by what it covers or behind that. -/
theorem harmed_prefaceOf_append_iff (small : length < UInt32.size) :
    Harmed (prefaceOf id length checksum ++ body) ↔ length ≤ body.length ∧
      (checksum = Checksum.crc32 (body.take length) → Harmed (body.drop length)) := by
  rcases Nat.lt_or_ge body.length length with beyond | within
  · have fine := not_harmed_of_torn (List.forall_mem_nil _)
      (torn_of_overrun id checksum small beyond)
    exact iff_of_false fine fun fits => Nat.not_le.mpr beyond fits.1
  · obtain ⟨misread, batch, sum, bytes⟩ := exists_read id checksum small within
    rw [bytes, harmed_bytes_append_iff, Frame.Intact, batch, sum]
    exact (and_iff_right within).symm

variable {id checksum}

/-! What is kept -/

/-- Batches among others take up less than those, by a preface for each of the others. -/
theorem weight_of_sublist {few many : List Bytes} (among : few.Sublist many) :
    (few.map fun batch => prefaceLength + batch.length).sum +
        prefaceLength * (many.length - few.length) ≤
      (many.map fun batch => prefaceLength + batch.length).sum := by
  induction among with
  | slnil => exact Nat.le_refl _
  | @cons few many batch among ih =>
    have fewer := among.length_le
    rw [List.map_cons, List.sum_cons, List.length_cons, Nat.succ_sub fewer, Nat.mul_succ]
    omega
  | cons_cons batch among ih =>
    rw [List.map_cons, List.sum_cons, List.map_cons, List.sum_cons, List.length_cons,
      List.length_cons, Nat.add_sub_add_right]
    omega

theorem length_framed (frames : List Frame) : (framed frames).length =
    ((frames.map Frame.batch).map fun batch => prefaceLength + batch.length).sum := by
  rw [framed, List.length_flatMap, List.map_map]
  exact congrArg List.sum (List.map_congr_left fun frame _ => frame.length_bytes)

/-- In no more bytes, batches are found among others only if they are all of them. -/
theorem eq_of_sublist {few many : List Frame}
    (among : (few.map Frame.batch).Sublist (many.map Frame.batch))
    (short : (framed many).length ≤ (framed few).length) :
    few.map Frame.batch = many.map Frame.batch := by
  have weight := weight_of_sublist among
  rw [← length_framed, ← length_framed, prefaceLength] at weight
  exact among.eq_of_length_le (by omega)

/-- Where another length is told, the batches are not read as they were. -/
theorem not_sublist_of_misread (small : length < UInt32.size)
    (differs : length ≠ frame.batch.length)
    (read : framed front ++ (prefaceOf frame.id length frame.checksum ++
      (frame.batch ++ framed back)) = framed frames ++ tail) :
    ¬ ((front ++ frame :: back).map Frame.batch).Sublist (frames.map Frame.batch) := by
  intro among
  have sizes := congrArg List.length read
  have short : (framed frames).length ≤ (framed (front ++ frame :: back)).length := by
    simp only [framed_append, framed_cons, List.length_append, length_prefaceOf,
      frame.length_bytes] at sizes ⊢
    omega
  have same := eq_of_sublist among short
  rw [List.map_append, List.map_cons] at same
  obtain ⟨before, more, rfl, first, others⟩ := List.map_eq_append_iff.mp same.symm
  obtain ⟨misread, behind, rfl, batch, -⟩ := List.map_eq_cons_iff.mp others
  have place : (framed front).length = (framed before).length := by
    rw [length_framed, length_framed, first]
  rw [framed_append, framed_cons, List.append_assoc, List.append_assoc] at read
  obtain ⟨-, here⟩ := List.append_inj read place
  have length := length_of_bytes_eq _ _ small here.symm
  rw [batch] at length
  exact differs length.symm

end Record

namespace FileJournal

open Record

variable {disk : Disk} {path : Path} {directory number : Nat} {name : String}
variable {start : Bytes} {front back : List Frame} {frame : Frame} {offset length : Nat}

/-- Opening reports damage and leaves the disk alone, or the journal shows all of these batches. -/
def KeepsAll (disk : Disk) (path : Path) (batches : List Bytes) : Prop :=
  (∃ cause, FileJournal.open disk path = (.error (.corruption cause), disk)) ∨
    ∃ journal after shown, FileJournal.open disk path = (.ok journal, after) ∧
      journal.Shows after shown ∧ batches.Sublist shown

theorem keepsAll_of_error {fault : Fault} (leads : disk.Leads path directory name number)
    (means : Means (disk.content number) (.error fault)) (batches : List Bytes) :
    KeepsAll disk path batches :=
  .inl ⟨_, (fails_of_means leads means).1⟩

theorem keepsAll_iff_of_ok {kept : Bytes} {frames : List Frame} (sound : disk.Sound)
    (leads : disk.Leads path directory name number)
    (means : Means (disk.content number) (.ok (kept, frames))) (batches : List Bytes) :
    KeepsAll disk path batches ↔ batches.Sublist (frames.map Frame.batch) := by
  have opened := open_of_means sound leads means
  constructor
  · rintro (⟨cause, failed⟩ | ⟨journal, after, shown, again, shows, among⟩)
    · rw [opened] at failed
      cases failed
    · rw [opened] at again
      cases again
      cases shows.replayed
      exact among
  · exact fun among => .inr ⟨_, _, _, opened, shows_ofScan _ _ _ _ _, among⟩

/-- When the length of a record in a journal file is changed, opening reports damage or shows every
batch just if the length stays in the file and what it covers has another checksum than the record
tells, or has the same and damage follows. In front of the record nothing may be damaged, as that is
reported in any case. -/
theorem open_keeps_all_iff (sound : disk.Sound) (leads : disk.Leads path directory name number)
    (headed : Headed start) (place : offset = (start ++ framed front).length)
    (altered : Altered (offset + 8) (offset + 12) (start ++ framed (front ++ frame :: back))
      (disk.content number))
    (told : length = ofLittleEndian (((disk.content number).drop (offset + 8)).take 4)) :
    let behind := frame.batch ++ framed back
    KeepsAll disk path ((front ++ frame :: back).map Frame.batch) ↔
      ((∀ other ∈ front, other.Intact) → length ≤ behind.length ∧
        (frame.checksum = Checksum.crc32 (behind.take length) → Harmed (behind.drop length))) := by
  intro behind
  have parts : start ++ framed (front ++ frame :: back) =
      start ++ framed front ++ frame.bytes ++ framed back := by
    rw [framed_append, framed_cons]
    simp only [List.append_assoc]
  have inside : 12 ≤ frame.bytes.length := by
    rw [frame.length_bytes, prefaceLength]
    omega
  rw [parts, place] at altered
  obtain ⟨changed, change, content⟩ := altered.inside inside
  obtain ⟨other, small, differs, rfl⟩ := frame.exists_length change
  have content : disk.content number =
      start ++ framed front ++ (prefaceOf frame.id other frame.checksum ++ behind) := by
    rw [content]
    simp only [behind, List.append_assoc]
  have same : length = other := by
    rw [told, content, place, ← List.drop_drop, List.drop_left, read_prefaceOf _ _ small]
  subst same
  rw [← harmed_prefaceOf_append_iff frame.id frame.checksum small, ← harmed_framed_append_iff]
  rw [List.append_assoc] at content
  constructor
  · intro keeps
    by_contra fine
    obtain ⟨frames, tail, bytes, intact, torn⟩ := exists_frames_of_not_harmed fine
    have means := Means.whole headed intact torn
    rw [List.append_assoc, ← bytes, ← content] at means
    exact not_sublist_of_misread small differs bytes
      ((keepsAll_iff_of_ok sound leads means _).mp keeps)
  · intro harmed
    obtain ⟨fault, means⟩ := harmed.means headed
    exact keepsAll_of_error leads (content ▸ means) _

/-! Two small records -/

def pair : List Frame := [.ofBatch 1 [1] (by decide), .ofBatch 2 [2] (by decide)]

/-- The two records, with another length told by the first. -/
def relabelled (length : Nat) : Bytes :=
  header ++ (prefaceOf 1 length (Checksum.crc32 [1]) ++ [1]) ++
    (Frame.ofBatch 2 [2] (by decide)).bytes

theorem altered_relabelled {length : Nat} (other : littleEndian 4 length ≠ littleEndian 4 1) :
    Altered 40 44 (header ++ framed pair) (relabelled length) := by
  let front := header ++ littleEndian 8 1
  let rest := littleEndian 4 (Checksum.crc32 [1]).toNat ++ [1] ++
    (Frame.ofBatch 2 [2] (by decide)).bytes
  have before : header ++ framed pair = front ++ littleEndian 4 1 ++ rest := rfl
  have after : relabelled length = front ++ littleEndian 4 length ++ rest := by
    simp only [relabelled, prefaceOf, front, rest, List.append_assoc]
    rfl
  have size : (littleEndian 4 length).length = (littleEndian 4 1).length := by
    rw [length_littleEndian, length_littleEndian]
  rw [before, after]
  exact .of_append front rest size other

/-- A length that takes in a part of the second record. -/
theorem open_keeps_all_iff_relabelled : KeepsAll (holding (relabelled 5)) .log [[1], [2]] := by
  obtain ⟨directory, name, holds⟩ := holding_holds
  obtain ⟨sound, leads, bytes⟩ := holds (relabelled 5)
  have altered : Altered (32 + 8) (32 + 12) (header ++ framed ([] ++ pair))
      ((holding (relabelled 5)).content 0) := bytes.symm ▸ altered_relabelled (by decide)
  have told : 5 = ofLittleEndian ((((holding (relabelled 5)).content 0).drop (32 + 8)).take 4) := by
    rw [bytes]
    decide +kernel
  have place : 32 = (header ++ framed []).length := by decide
  have kept := open_keeps_all_iff sound leads headed_header place altered told
  have covered : Checksum.crc32 [1] ≠ Checksum.crc32 [1, 2, 0, 0, 0] := by decide +kernel
  exact kept.mpr fun _ => ⟨by decide, fun same => absurd same covered⟩

/-- A length beyond the end of the file: the journal opens without a batch, and nothing is left of
the records. -/
theorem open_drops_records :
    (∀ frame ∈ pair, frame.Intact) ∧
      Altered 40 44 (header ++ framed pair) ((holding (relabelled 0xFFFFFFFF)).content 0) ∧
      (∃ journal after, FileJournal.open (holding (relabelled 0xFFFFFFFF)) .log =
        (.ok journal, after) ∧ journal.Shows after [] ∧ after.content 0 = header) ∧
      ¬ KeepsAll (holding (relabelled 0xFFFFFFFF)) .log [[1], [2]] := by
  obtain ⟨directory, name, holds⟩ := holding_holds
  obtain ⟨sound, leads, bytes⟩ := holds (relabelled 0xFFFFFFFF)
  have torn : Torn (prefaceOf 1 0xFFFFFFFF (Checksum.crc32 [1]) ++
      ([1] ++ (Frame.ofBatch 2 [2] (by decide)).bytes)) :=
    torn_of_overrun _ _ (by decide) (by decide)
  have means : Means ((holding (relabelled 0xFFFFFFFF)).content 0) (.ok (header, [])) := by
    have whole := Means.whole headed_header (List.forall_mem_nil Frame.Intact) torn
    have none : header ++ framed [] = header := List.append_nil _
    rw [none, ← List.append_assoc, ← List.append_assoc] at whole
    rwa [bytes, relabelled, ← List.append_assoc]
  have intact : ∀ frame ∈ pair, frame.Intact :=
    List.forall_mem_cons.mpr ⟨rfl, List.forall_mem_singleton.mpr rfl⟩
  have lost : ¬ KeepsAll (holding (relabelled 0xFFFFFFFF)) .log [[1], [2]] := by
    rw [keepsAll_iff_of_ok sound leads means]
    decide
  exact ⟨intact, bytes.symm ▸ altered_relabelled (by decide),
    ⟨_, _, open_of_means sound leads means, shows_ofScan _ _ _ _ _,
      content_of_means sound leads means⟩, lost⟩

end FileJournal

end DeliveryQueue
