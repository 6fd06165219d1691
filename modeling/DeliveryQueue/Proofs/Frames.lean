import DeliveryQueue.Journal.File

/-!
The records in any bytes at all. Bytes are records up to where they end in the middle of one or
where a damaged one stands (`Record.exists_frames`), and a scan finds just these
(`Record.scan_of_torn`, `Record.scan_of_broken`). So much is in the bytes of a journal file, whoever
has written them: `Record.Means` tells which of them make a journal, and of what.
-/
namespace DeliveryQueue.Record

/-- What stands in the bytes of a record. -/
structure Frame where
  id : UInt64
  checksum : UInt32
  batch : Bytes
  /-- The length of the batch fits its four bytes. -/
  short : batch.length < UInt32.size

namespace Frame

/-- The bytes of the record before its batch. -/
def preface (frame : Frame) : Bytes :=
  littleEndian 8 frame.id.toNat ++ littleEndian 4 frame.batch.length ++
    littleEndian 4 frame.checksum.toNat

def bytes (frame : Frame) : Bytes := frame.preface ++ frame.batch

/-- The checksum is that of the batch. -/
def Intact (frame : Frame) : Prop := frame.checksum = Checksum.crc32 frame.batch

theorem length_preface (frame : Frame) : frame.preface.length = prefaceLength := by
  simp [preface, prefaceLength]

theorem length_bytes (frame : Frame) : frame.bytes.length = prefaceLength + frame.batch.length := by
  rw [bytes, List.length_append, length_preface]

/-- What a reader takes from the bytes before a batch. -/
theorem read_preface (frame : Frame) :
    UInt64.ofNat (ofLittleEndian (frame.preface.take 8)) = frame.id ∧
      ofLittleEndian ((frame.preface.drop 8).take 4) = frame.batch.length ∧
      UInt32.ofNat (ofLittleEndian (frame.preface.drop 12)) = frame.checksum := by
  have number : frame.preface.take 8 = littleEndian 8 frame.id.toNat := by
    rw [preface, List.append_assoc, List.take_left' (length_littleEndian 8 _)]
  have length : (frame.preface.drop 8).take 4 = littleEndian 4 frame.batch.length := by
    rw [preface, List.append_assoc, List.drop_left' (length_littleEndian 8 _),
      List.take_left' (length_littleEndian 4 _)]
  have sum : frame.preface.drop 12 = littleEndian 4 frame.checksum.toNat := by
    rw [preface, List.drop_left' (by simp)]
  have below : frame.checksum.toNat < span 4 := frame.checksum.toNat_lt
  rw [number, length, sum, ofLittleEndian_littleEndian frame.id.toNat_lt,
    ofLittleEndian_littleEndian frame.short, ofLittleEndian_littleEndian below]
  simp

end Frame

/-- The bytes end before a record does. -/
def Torn (bytes : Bytes) : Prop := ∀ (frame : Frame) (rest : Bytes), bytes ≠ frame.bytes ++ rest

/-- The bytes of records one behind the other. -/
def framed (frames : List Frame) : Bytes := frames.flatMap Frame.bytes

theorem framed_append (front back : List Frame) :
    framed (front ++ back) = framed front ++ framed back := List.flatMap_append

theorem framed_cons (frame : Frame) (frames : List Frame) :
    framed (frame :: frames) = frame.bytes ++ framed frames := List.flatMap_cons

section Reading
variable {frame : Frame} {rest tail : Bytes} {frames : List Frame}

/-- A record in front of anything is read as it stands there. -/
theorem next_frame_of_intact (intact : frame.Intact) (rest : Bytes) :
    next (frame.bytes ++ rest) = .complete frame.id frame.batch rest := by
  obtain ⟨number, length, sum⟩ := frame.read_preface
  unfold next
  rw [Frame.bytes, List.append_assoc, splitExact_append frame.length_preface]
  simp only [length, splitExact_append, sum, number, if_pos intact.symm]

theorem next_frame_of_broken (broken : ¬ frame.Intact) (rest : Bytes) :
    next (frame.bytes ++ rest) =
      .damaged frame.batch.length frame.checksum (Checksum.crc32 frame.batch) := by
  obtain ⟨number, length, sum⟩ := frame.read_preface
  unfold next
  rw [Frame.bytes, List.append_assoc, splitExact_append frame.length_preface]
  simp only [length, splitExact_append, sum, if_neg fun same => broken (Eq.symm same)]

/-- A record that was cut is not there yet. -/
theorem next_take (frame : Frame) {count : Nat} (cut : count < prefaceLength + frame.batch.length)
    (rest : Bytes) : next ((frame.bytes ++ rest).take count) = .incomplete := by
  rw [Frame.bytes, List.append_assoc]
  by_cases early : count < prefaceLength
  · have few : ((frame.preface ++ (frame.batch ++ rest)).take count).length < prefaceLength := by
      rw [List.length_take]
      omega
    unfold next
    rw [splitExact_eq_none_iff.mpr few]
  · have behind : (frame.preface ++ (frame.batch ++ rest)).take count =
        frame.preface ++ (frame.batch ++ rest).take (count - prefaceLength) := by
      rw [List.take_append, frame.length_preface, List.take_of_length_le]
      rw [frame.length_preface]
      omega
    have few : ((frame.batch ++ rest).take (count - prefaceLength)).length <
        frame.batch.length := by
      rw [List.length_take]
      omega
    obtain ⟨-, length, -⟩ := frame.read_preface
    unfold next
    rw [behind, splitExact_append frame.length_preface]
    simp only [length, splitExact_eq_none_iff.mpr few]

/-- A preface and a batch of the length that it tells are a record. -/
theorem exists_frame {head batch : Bytes} (full : head.length = prefaceLength)
    (length : batch.length = ofLittleEndian ((head.drop 8).take 4)) :
    ∃ frame : Frame, frame.bytes = head ++ batch := by
  -- reading a number and writing it again changes nothing
  have again (width : Nat) (part : Bytes) (few : part.length = width) :
      littleEndian width (ofLittleEndian part) = part ∧ ofLittleEndian part < span width :=
    few ▸ ⟨littleEndian_ofLittleEndian part, ofLittleEndian_lt part⟩
  obtain ⟨id, idSmall⟩ := again 8 (head.take 8) (by simp [full, prefaceLength])
  obtain ⟨size, sizeSmall⟩ := again 4 ((head.drop 8).take 4) (by simp [full, prefaceLength])
  obtain ⟨sum, sumSmall⟩ := again 4 (head.drop 12) (by simp [full, prefaceLength])
  have short : batch.length < UInt32.size := Nat.lt_of_le_of_lt (Nat.le_of_eq length) sizeSmall
  have parts : head.take 8 ++ (head.drop 8).take 4 ++ head.drop 12 = head := by
    have behind : (head.drop 8).drop 4 = head.drop 12 := List.drop_drop
    rw [List.append_assoc, ← behind, List.take_append_drop, List.take_append_drop]
  have written : littleEndian 8 (UInt64.ofNat (ofLittleEndian (head.take 8))).toNat ++
      littleEndian 4 batch.length ++
        littleEndian 4 (UInt32.ofNat (ofLittleEndian (head.drop 12))).toNat = head := by
    rw [UInt64.toNat_ofNat_of_lt' idSmall, UInt32.toNat_ofNat_of_lt' sumSmall, length, id, size,
      sum, parts]
  exact ⟨⟨_, _, batch, short⟩, congrArg (· ++ batch) written⟩

/-- Where no record is complete, none is read. -/
theorem next_of_torn (torn : Torn tail) : next tail = .incomplete := by
  unfold next
  cases split : splitExact prefaceLength tail with
  | none => rfl
  | some parts =>
    obtain ⟨head, body⟩ := parts
    obtain ⟨full, rfl⟩ := splitExact_eq_some_iff.mp split
    dsimp only
    cases inner : splitExact (ofLittleEndian ((head.drop 8).take 4)) body with
    | none => rfl
    | some parts =>
      obtain ⟨batch, rest⟩ := parts
      obtain ⟨length, rfl⟩ := splitExact_eq_some_iff.mp inner
      obtain ⟨frame, bytes⟩ := exists_frame full length
      exact absurd (by rw [bytes, List.append_assoc]) (torn frame rest)

/-- Bytes that are too few for a preface hold no record. -/
theorem torn_of_few (few : tail.length < prefaceLength) : Torn tail := by
  rintro frame rest rfl
  rw [List.length_append, frame.length_bytes] at few
  omega

theorem torn_nil : Torn [] := torn_of_few (by decide)

/-- All bytes are intact records up to where no record is complete, or a damaged one stands. -/
theorem exists_frames (bytes : Bytes) :
    ∃ (frames : List Frame) (tail : Bytes), bytes = framed frames ++ tail ∧
      (∀ frame ∈ frames, frame.Intact) ∧
      (Torn tail ∨
        ∃ (frame : Frame) (rest : Bytes), ¬ frame.Intact ∧ tail = frame.bytes ++ rest) := by
  induction few : bytes.length using Nat.strongRecOn generalizing bytes with
  | ind length ih =>
    by_cases torn : Torn bytes
    · exact ⟨[], bytes, rfl, List.forall_mem_nil _, .inl torn⟩
    · obtain ⟨frame, rest, same⟩ : ∃ (frame : Frame) (rest : Bytes),
          bytes = frame.bytes ++ rest := by simpa [Torn] using torn
      by_cases intact : frame.Intact
      · have shorter : rest.length < length := by
          rw [← few, same, List.length_append, frame.length_bytes, prefaceLength]
          omega
        obtain ⟨frames, tail, rfl, others, ends⟩ := ih rest.length shorter rest rfl
        refine ⟨frame :: frames, tail, ?_, List.forall_mem_cons.mpr ⟨intact, others⟩, ends⟩
        rw [same, framed_cons, List.append_assoc]
      · exact ⟨[], bytes, rfl, List.forall_mem_nil _, .inr ⟨frame, rest, intact, same⟩⟩

/-! The scan -/

/-- The number for the record after some, the first of which would have had the number `id`. -/
def nextNumber (id : UInt64) (frames : List Frame) : UInt64 :=
  frames.foldl (fun _ frame => frame.id + 1) id

theorem length_le_framed (frames : List Frame) : frames.length ≤ (framed frames).length := by
  induction frames with
  | nil => exact Nat.zero_le _
  | cons frame frames ih =>
    have length := frame.length_bytes
    rw [framed_cons, List.length_append, List.length_cons]
    rw [prefaceLength] at length
    omega

variable (intact : ∀ frame ∈ frames, frame.Intact)
include intact

/-- A scan goes through intact records one after the other. -/
theorem scanFrom_framed {fuel : Nat} (enough : frames.length ≤ fuel) (offset : Nat) (id : UInt64)
    (tail : Bytes) :
    scanFrom fuel offset id (framed frames ++ tail) =
      let rest := scanFrom (fuel - frames.length) (offset + (framed frames).length)
        (nextNumber id frames) tail
      { rest with batches := frames.map Frame.batch ++ rest.batches } := by
  induction frames generalizing fuel offset id with
  | nil => rfl
  | cons frame frames ih =>
    obtain ⟨first, others⟩ := List.forall_mem_cons.mp intact
    obtain ⟨left, rfl⟩ := Nat.exists_eq_add_one_of_ne_zero (Nat.ne_zero_of_lt enough)
    have length := frame.length_bytes
    have stop : offset + prefaceLength + frame.batch.length + (framed frames).length =
        offset + (framed (frame :: frames)).length := by
      rw [framed_cons, List.length_append]
      omega
    have here : framed (frame :: frames) ++ tail = frame.bytes ++ (framed frames ++ tail) := by
      rw [framed_cons, List.append_assoc]
    rw [here, scanFrom, next_frame_of_intact first]
    simp only [ih others (Nat.le_of_succ_le_succ enough), stop, List.length_cons,
      Nat.add_sub_add_right]
    rfl

variable {start : Bytes} (full : start.length = headerLength)
include full

theorem scan_framed (tail : Bytes) : ∃ fuel, scan (start ++ framed frames ++ tail) =
    let rest := scanFrom (fuel + 1) (start ++ framed frames).length (nextNumber 1 frames) tail
    { rest with batches := frames.map Frame.batch ++ rest.batches } := by
  have few := length_le_framed frames
  have behind : (start ++ framed frames ++ tail).drop headerLength = framed frames ++ tail := by
    rw [List.append_assoc, List.drop_left' full]
  have length : (start ++ framed frames ++ tail).length =
      start.length + (framed frames).length + tail.length := by
    rw [List.length_append, List.length_append]
  refine ⟨(start ++ framed frames ++ tail).length - frames.length, ?_⟩
  have fuel : (start ++ framed frames ++ tail).length + 1 - frames.length =
      (start ++ framed frames ++ tail).length - frames.length + 1 := by omega
  have stop : headerLength + (framed frames).length = (start ++ framed frames).length := by
    rw [List.length_append, full]
  rw [scan, behind, scanFrom_framed intact (by omega), fuel, stop]

/-- What ends in the middle of a record is read up to there. -/
theorem scan_of_torn (torn : Torn tail) : scan (start ++ framed frames ++ tail) =
    ⟨frames.map Frame.batch, nextNumber 1 frames, (start ++ framed frames).length, none⟩ := by
  obtain ⟨fuel, scanned⟩ := scan_framed intact full tail
  rw [scanned, scanFrom, next_of_torn torn]
  simp

/-- A damaged record ends the scan. -/
theorem scan_of_broken (broken : ¬ frame.Intact) (rest : Bytes) :
    ∃ behind, (scan (start ++ framed frames ++ (frame.bytes ++ rest))).damage =
      some (.wrongChecksum (start ++ framed frames).length frame.checksum
        (Checksum.crc32 frame.batch), behind) := by
  obtain ⟨fuel, scanned⟩ := scan_framed intact full (frame.bytes ++ rest)
  rw [scanned, scanFrom, next_frame_of_broken broken]
  exact ⟨_, rfl⟩

end Reading

/-! Whole files -/

/-- The first bytes of a journal file. Only some of them are checked. -/
structure Headed (start : Bytes) : Prop where
  full : start.length = headerLength
  marked : start.take 8 = magic
  known : ofLittleEndian ((start.drop 8).take 4) = version

theorem headed_header : Headed header := ⟨by decide, by decide, by decide⟩

/-- What the bytes of a journal file mean: that they are damaged, or which part of them is to be
kept and which records are in it. An empty file is yet to get its header. -/
inductive Means : Bytes → Except Fault (Bytes × List Frame) → Prop
  | empty : Means [] (.ok (header, []))
  | tooShort {content : Bytes} (some : content ≠ []) (few : content.length < headerLength) :
      Means content (.error .tooShort)
  | wrongMagic {content : Bytes} (long : headerLength ≤ content.length)
      (other : content.take 8 ≠ magic) : Means content (.error .wrongMagic)
  | unknownVersion {content : Bytes} (long : headerLength ≤ content.length)
      (marked : content.take 8 = magic)
      (other : ofLittleEndian ((content.drop 8).take 4) ≠ version) :
      Means content (.error (.unknownVersion (ofLittleEndian ((content.drop 8).take 4))))
  | damaged {start rest : Bytes} {frames : List Frame} {frame : Frame} (headed : Headed start)
      (intact : ∀ frame ∈ frames, frame.Intact) (broken : ¬ frame.Intact) :
      Means (start ++ framed frames ++ (frame.bytes ++ rest))
        (.error (.wrongChecksum (start ++ framed frames).length frame.checksum
          (Checksum.crc32 frame.batch)))
  | whole {start tail : Bytes} {frames : List Frame} (headed : Headed start)
      (intact : ∀ frame ∈ frames, frame.Intact) (torn : Torn tail) :
      Means (start ++ framed frames ++ tail) (.ok (start ++ framed frames, frames))

/-- All bytes mean something. -/
theorem exists_means (content : Bytes) : ∃ outcome, Means content outcome := by
  by_cases some : content = []
  · subst some
    exact ⟨_, .empty⟩
  by_cases long : headerLength ≤ content.length
  · by_cases marked : content.take 8 = magic
    · by_cases known : ofLittleEndian ((content.drop 8).take 4) = version
      · have headed : Headed (content.take headerLength) := by
          refine ⟨List.length_take_of_le long, ?_, ?_⟩
          · rw [List.take_take]
            exact marked
          · rw [List.drop_take, List.take_take]
            exact known
        obtain ⟨frames, tail, behind, intact, ends⟩ := exists_frames (content.drop headerLength)
        have parts : content = content.take headerLength ++ framed frames ++ tail := by
          rw [List.append_assoc, ← behind, List.take_append_drop]
        rw [parts]
        rcases ends with torn | ⟨frame, rest, broken, rfl⟩
        · exact ⟨_, .whole headed intact torn⟩
        · exact ⟨_, .damaged headed intact broken⟩
      · exact ⟨_, .unknownVersion long marked known⟩
    · exact ⟨_, .wrongMagic long marked⟩
  · exact ⟨_, .tooShort some (Nat.lt_of_not_le long)⟩

theorem checkHeader_of_headed {start : Bytes} (headed : Headed start) (rest : Bytes) :
    checkHeader (start ++ rest) = .ok () := by
  obtain ⟨full, marked, known⟩ := headed
  have long : ¬ (start ++ rest).length < headerLength := by
    rw [List.length_append, full]
    omega
  have first : (start ++ rest).take 8 = magic := by
    rw [List.take_append_of_le_length (by rw [full]; decide), marked]
  have second : ((start ++ rest).drop 8).take 4 = (start.drop 8).take 4 := by
    rw [List.drop_append_of_le_length (by rw [full]; decide),
      List.take_append_of_le_length (by rw [List.length_drop, full]; decide)]
  unfold checkHeader
  rw [if_neg long, if_neg (Classical.not_not.mpr first)]
  simp only [second, known, if_true]

end DeliveryQueue.Record

namespace DeliveryQueue.FileJournal

open Record

variable {content : Bytes} {fault : Fault} {kept : Bytes} {frames : List Frame}

/-- What is not damaged is read as it is, an empty file aside. -/
theorem inspect_of_ok (means : Means content (.ok (kept, frames))) (some : content ≠ []) :
    inspect content = .ok ⟨frames.map Frame.batch, nextNumber 1 frames, kept.length, none⟩ := by
  cases means with
  | empty => exact absurd rfl some
  | whole headed intact torn =>
    unfold inspect
    rw [List.append_assoc, checkHeader_of_headed headed, ← List.append_assoc]
    simp only [scan_of_torn intact headed.full torn]

theorem inspect_of_error (means : Means content (.error fault)) :
    inspect content = .error (.corruption (.record fault)) := by
  unfold inspect
  cases means with
  | tooShort some few => rw [checkHeader, if_pos few]
  | wrongMagic long other => rw [checkHeader, if_neg (Nat.not_lt.mpr long), if_pos other]
  | unknownVersion long marked other =>
    simp only [checkHeader, if_neg (Nat.not_lt.mpr long),
      if_neg (Classical.not_not.mpr marked), if_neg other]
  | @damaged _ rest _ _ headed intact broken =>
    obtain ⟨behind, damage⟩ := scan_of_broken intact headed.full broken rest
    rw [List.append_assoc, checkHeader_of_headed headed, ← List.append_assoc]
    simp only [damage]

end DeliveryQueue.FileJournal
