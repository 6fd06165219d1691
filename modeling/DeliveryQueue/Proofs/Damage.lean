import DeliveryQueue.Proofs.Inspection
import DeliveryQueue.Proofs.Remainder

/-!
Damage inside a record. Up to four altered bytes of a batch, or any of its checksum, leave a record
that is read as before but is not intact (`Record.Frame.Watched.exists_broken`). The records in
front of it are read unharmed, so a journal file that was in order is reported as damaged, at the
offset of just that record (`FileJournal.open_notices_damage`).
-/
namespace DeliveryQueue

/-- Two strings of as many bytes that differ, but only from `low` on and before `high`. -/
structure Altered (low high : Nat) (bytes other : Bytes) : Prop where
  length : other.length = bytes.length
  outside : ∀ place, ¬ (low ≤ place ∧ place < high) → other[place]? = bytes[place]?
  changed : other ≠ bytes

theorem getElem?_middle {front part rest : Bytes} {place : Nat} (within : place < part.length) :
    (front ++ part ++ rest)[front.length + place]? = part[place]? := by
  rw [List.append_assoc, List.getElem?_append_right (Nat.le_add_right _ _),
    Nat.add_sub_cancel_left, List.getElem?_append_left within]

/-- Bytes that are altered in a part of them only. -/
theorem Altered.inside {front part rest other : Bytes} {low high : Nat}
    (within : high ≤ part.length)
    (altered : Altered (front.length + low) (front.length + high) (front ++ part ++ rest) other) :
    ∃ changed, Altered low high part changed ∧ other = front ++ changed ++ rest := by
  have before : other.take front.length = front := by
    refine List.ext_getElem? fun place => ?_
    rw [List.getElem?_take]
    split
    · rename_i early
      rw [altered.outside place (by omega), List.append_assoc, List.getElem?_append_left early]
    · rename_i late
      exact (List.getElem?_eq_none (Nat.not_lt.mp late)).symm
  have behind : (other.drop front.length).drop part.length = rest := by
    refine List.ext_getElem? fun place => ?_
    rw [List.drop_drop, List.getElem?_drop, altered.outside _ (by omega), ← List.length_append,
      List.getElem?_append_right (Nat.le_add_right _ _), Nat.add_sub_cancel_left]
  obtain ⟨changed, whole⟩ : ∃ changed, other = front ++ changed ++ rest := by
    refine ⟨(other.drop front.length).take part.length, ?_⟩
    calc other = other.take front.length ++ other.drop front.length :=
          (List.take_append_drop _ _).symm
      _ = front ++ ((other.drop front.length).take part.length ++ rest) := by
          rw [before, ← behind, List.take_append_drop]
      _ = front ++ (other.drop front.length).take part.length ++ rest :=
          (List.append_assoc _ _ _).symm
  subst whole
  have length : changed.length = part.length := by
    have same := altered.length
    simp only [List.length_append] at same
    omega
  refine ⟨changed, ⟨length, fun place apart => ?_, ?_⟩, rfl⟩
  · by_cases early : place < part.length
    · have same := altered.outside (front.length + place) (by omega)
      rwa [getElem?_middle (length ▸ early), getElem?_middle early] at same
    · rw [List.getElem?_eq_none (Nat.not_lt.mp early),
        List.getElem?_eq_none (length ▸ Nat.not_lt.mp early)]
  · rintro rfl
    exact altered.changed rfl

namespace Record

/-- Where in a record no change goes unnoticed. -/
inductive Frame.Watched (frame : Frame) : Nat → Nat → Prop
  | checksum : frame.Watched 12 prefaceLength
  | batch {front some rest : Bytes} (parts : frame.batch = front ++ some ++ rest)
      (few : some.length ≤ 4) :
      frame.Watched (prefaceLength + front.length) (prefaceLength + front.length + some.length)

variable {frame : Frame} {low high : Nat} {other : Bytes}

theorem Frame.Watched.le_length (watched : frame.Watched low high) :
    high ≤ frame.bytes.length := by
  rw [frame.length_bytes]
  cases watched with
  | checksum => exact Nat.le_add_right _ _
  | batch parts =>
    rw [parts, List.length_append, List.length_append]
    omega

section Breaking
variable (intact : frame.Intact)
include intact

/-- Other bytes in the place of the checksum are another checksum. -/
theorem Frame.exists_broken_checksum (altered : Altered 12 prefaceLength frame.bytes other) :
    ∃ damaged : Frame, damaged.bytes = other ∧ ¬ damaged.Intact := by
  let front := littleEndian 8 frame.id.toNat ++ littleEndian 4 frame.batch.length
  let written := littleEndian 4 frame.checksum.toNat
  have length : front.length = 12 := by simp [front]
  have four : written.length = 4 := length_littleEndian 4 _
  have here : Altered (front.length + 0) (front.length + 4) (front ++ written ++ frame.batch)
      other := by
    rw [length]
    exact altered
  obtain ⟨changed, change, rfl⟩ := here.inside (Nat.le_of_eq four.symm)
  have full : changed.length = 4 := change.length.trans four
  have small : ofLittleEndian changed < span 4 := full ▸ ofLittleEndian_lt changed
  have again : littleEndian 4 (UInt32.ofNat (ofLittleEndian changed)).toNat = changed := by
    rw [UInt32.toNat_ofNat_of_lt' small, ← full, littleEndian_ofLittleEndian]
  let damaged : Frame := { frame with checksum := .ofNat (ofLittleEndian changed) }
  refine ⟨damaged, congrArg (front ++ · ++ frame.batch) again, fun same => change.changed ?_⟩
  have sum : UInt32.ofNat (ofLittleEndian changed) = frame.checksum := same.trans intact.symm
  rw [← again, sum]

/-- Up to four other bytes in the batch make a batch with another checksum. -/
theorem Frame.exists_broken_batch {front some rest : Bytes}
    (parts : frame.batch = front ++ some ++ rest) (few : some.length ≤ 4)
    (altered : Altered (prefaceLength + front.length) (prefaceLength + front.length + some.length)
      frame.bytes other) :
    ∃ damaged : Frame, damaged.bytes = other ∧ ¬ damaged.Intact := by
  have whole : frame.bytes = frame.preface ++ front ++ some ++ rest := by
    rw [Frame.bytes, parts]
    simp only [List.append_assoc]
  have length : (frame.preface ++ front).length = prefaceLength + front.length := by
    rw [List.length_append, frame.length_preface]
  rw [whole, ← length, ← Nat.add_zero (frame.preface ++ front).length] at altered
  obtain ⟨changed, change, rfl⟩ := altered.inside (Nat.le_refl some.length)
  have same : (front ++ changed ++ rest).length = frame.batch.length := by
    rw [parts]
    simp only [List.length_append, change.length]
  let damaged : Frame := { frame with
    batch := front ++ changed ++ rest
    short := same ▸ frame.short }
  have preface : damaged.preface = frame.preface := by
    rw [Frame.preface, Frame.preface, same]
  refine ⟨damaged, ?_, fun sum => change.changed ?_⟩
  · rw [Frame.bytes, preface]
    simp only [damaged, List.append_assoc]
  · have checksums : Checksum.crc32 (front ++ changed ++ rest) =
        Checksum.crc32 (front ++ some ++ rest) := sum.symm.trans (parts ▸ intact)
    exact Checksum.crc32_burst change.length few checksums

/-- What such a change leaves is a record that is not intact. -/
theorem Frame.Watched.exists_broken (watched : frame.Watched low high)
    (altered : Altered low high frame.bytes other) :
    ∃ damaged : Frame, damaged.bytes = other ∧ ¬ damaged.Intact := by
  cases watched with
  | checksum => exact exists_broken_checksum intact altered
  | batch parts few => exact exists_broken_batch intact parts few altered

end Breaking

end Record

namespace FileJournal

open Record

/-- A change inside a record of a journal file is noticed on opening, as one of just that record,
and the file is left as it is. -/
theorem open_notices_damage {disk : Disk} {path : Path} {directory number : Nat} {name : String}
    {start : Bytes} {front back : List Frame} {frame : Frame} {offset low high : Nat}
    (leads : disk.Leads path directory name number) (headed : Headed start)
    (intact : ∀ other ∈ front ++ frame :: back, other.Intact)
    (place : offset = (start ++ framed front).length) (watched : frame.Watched low high)
    (altered : Altered (offset + low) (offset + high) (start ++ framed (front ++ frame :: back))
      (disk.content number)) :
    ∃ expected actual,
      FileJournal.open disk path =
          (.error (.corruption (.record (.wrongChecksum offset expected actual))), disk) ∧
        openReadOnly disk path =
          .error (.corruption (.record (.wrongChecksum offset expected actual))) := by
  have before : ∀ frame ∈ front, frame.Intact := fun other member =>
    intact other (List.mem_append_left _ member)
  have here : frame.Intact := intact frame (List.mem_append_right _ List.mem_cons_self)
  have parts : start ++ framed (front ++ frame :: back) =
      start ++ framed front ++ frame.bytes ++ framed back := by
    rw [framed, List.flatMap_append, List.flatMap_cons, framed, framed]
    simp only [List.append_assoc]
  rw [parts, place] at altered
  obtain ⟨changed, change, content⟩ := altered.inside watched.le_length
  obtain ⟨damaged, rfl, broken⟩ := watched.exists_broken here change
  rw [List.append_assoc] at content
  have means : Means (disk.content number) (.error (.wrongChecksum offset damaged.checksum
      (Checksum.crc32 damaged.batch))) := by
    rw [content, place]
    exact .damaged headed before broken
  exact ⟨_, _, fails_of_means leads means⟩

/-- Of two records, one byte in the batch of the second is altered. -/
theorem open_notices_damage_flipped :
    let first : Frame := .ofBatch 1 [7, 8] (by decide)
    let second : Frame := .ofBatch 2 [1, 2, 3] (by decide)
    let other : Frame := { second with batch := [1, 6, 3] }
    let damaged := holding (header ++ framed [first, other])
    ∃ expected actual,
      FileJournal.open damaged .log =
          (.error (.corruption (.record (.wrongChecksum 50 expected actual))), damaged) ∧
        openReadOnly damaged .log =
          .error (.corruption (.record (.wrongChecksum 50 expected actual))) := by
  intro first second other damaged
  obtain ⟨directory, name, holds⟩ := holding_holds
  obtain ⟨-, leads, bytes⟩ := holds (header ++ framed [first, other])
  have intact : ∀ record ∈ [first] ++ second :: [], record.Intact :=
    List.forall_mem_cons.mpr ⟨rfl, List.forall_mem_singleton.mpr rfl⟩
  have place : 50 = (header ++ framed [first]).length := by decide +kernel
  have parts : second.batch = [1] ++ [2] ++ [3] := rfl
  have watched : second.Watched 17 18 := .batch parts (by decide)
  have altered : Altered (50 + 17) (50 + 18) (header ++ framed ([first] ++ second :: []))
      (damaged.content 0) := by
    rw [bytes]
    refine ⟨by decide +kernel, fun place apart => ?_, by decide +kernel⟩
    by_cases early : place < 69
    · have same : ∀ place < 69, ¬ (67 ≤ place ∧ place < 68) →
          (header ++ framed [first, other])[place]? =
            (header ++ framed [first, second])[place]? := by decide +kernel
      exact same place early apart
    · rw [List.getElem?_eq_none (Nat.not_lt.mp early), List.getElem?_eq_none (Nat.not_lt.mp early)]
  exact open_notices_damage leads headed_header intact place watched altered

end FileJournal

end DeliveryQueue
