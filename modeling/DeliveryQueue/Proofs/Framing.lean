import DeliveryQueue.Proofs.Frames

/-!
Journal files as logs of batches. The records of a log stand one behind the other behind the header
(`Record.file`). What is left of a file that was cut anywhere behind its header reads as the records
that lie wholly in it (`FileJournal.inspect_take`), since what follows them is too short for one.
-/
namespace DeliveryQueue

namespace Record

/-- The records of batches, numbered from `id` on. -/
def chain : UInt64 → List Bytes → Bytes
  | _, [] => []
  | id, batch :: batches => encode id batch ++ chain (id + 1) batches

/-- The journal file that holds these batches. -/
def file (log : List Bytes) : Bytes := header ++ chain 1 log

/-- The batches whose records lie wholly in the first `count` bytes. -/
def within : Nat → List Bytes → List Bytes
  | _, [] => []
  | count, batch :: batches =>
    if prefaceLength + batch.length ≤ count then
      batch :: within (count - (prefaceLength + batch.length)) batches
    else []

/-- The length of every batch fits its four bytes. -/
def Short (log : List Bytes) : Prop := ∀ batch ∈ log, batch.length < UInt32.size

variable {id : UInt64} {batch rest tail : Bytes} {log : List Bytes} {count : Nat}

/-- The record that is written for a batch. -/
def Frame.ofBatch (id : UInt64) (batch : Bytes) (short : batch.length < UInt32.size) : Frame :=
  ⟨id, Checksum.crc32 batch, batch, short⟩

theorem Frame.bytes_ofBatch (id : UInt64) (short : batch.length < UInt32.size) :
    (ofBatch id batch short).bytes = encode id batch := rfl

theorem length_encode (id : UInt64) (batch : Bytes) :
    (encode id batch).length = prefaceLength + batch.length := by
  simp only [encode, List.length_append, length_littleEndian, prefaceLength]

theorem length_header : header.length = headerLength := headed_header.full

/-- A record in front of anything is read as it was written. -/
theorem next_append (short : batch.length < UInt32.size) :
    next (encode id batch ++ rest) = .complete id batch rest := by
  have intact : (Frame.ofBatch id batch short).Intact := rfl
  rw [← Frame.bytes_ofBatch id short]
  exact next_frame_of_intact intact rest

theorem length_le_chain (id : UInt64) (log : List Bytes) : log.length ≤ (chain id log).length := by
  induction log generalizing id with
  | nil => exact Nat.zero_le _
  | cons batch log ih =>
    have rest := ih (id + 1)
    rw [chain, List.length_append, length_encode, List.length_cons, prefaceLength]
    omega

theorem chain_concat (id : UInt64) (log : List Bytes) (batch : Bytes) :
    chain id (log ++ [batch]) = chain id log ++ encode (id + UInt64.ofNat log.length) batch := by
  induction log generalizing id with
  | nil =>
    have same : id + UInt64.ofNat 0 = id := by simp
    rw [List.nil_append, chain, chain, chain, List.append_nil, List.nil_append, List.length_nil,
      same]
  | cons first log ih =>
    rw [List.cons_append, chain, ih, chain, List.length_cons, add_ofNat_succ, List.append_assoc]

theorem file_concat (log : List Bytes) (batch : Bytes) :
    file (log ++ [batch]) = file log ++ encode (1 + UInt64.ofNat log.length) batch := by
  rw [file, chain_concat, file, List.append_assoc]

theorem length_file (log : List Bytes) :
    (file log).length = headerLength + (chain 1 log).length := by
  rw [file, List.length_append, length_header]

theorem Short.within (short : Short log) (count : Nat) : Short (within count log) := by
  induction log generalizing count with
  | nil => exact short
  | cons batch log ih =>
    obtain ⟨first, others⟩ := List.forall_mem_cons.mp short
    unfold Record.within
    split
    · exact List.forall_mem_cons.mpr ⟨first, ih others _⟩
    · intro _ member
      cases member

theorem within_prefix (count : Nat) (log : List Bytes) : within count log <+: log := by
  induction log generalizing count with
  | nil => exact List.prefix_rfl
  | cons batch log ih =>
    unfold within
    split
    · exact (List.prefix_cons_inj batch).mpr (ih _)
    · exact List.nil_prefix

theorem length_chain_within (id : UInt64) (count : Nat) (log : List Bytes) :
    (chain id (within count log)).length ≤ count := by
  induction log generalizing id count with
  | nil => exact Nat.zero_le _
  | cons batch log ih =>
    unfold within
    split
    · have rest := ih (id + 1) (count - (prefaceLength + batch.length))
      rw [chain, List.length_append, length_encode]
      omega
    · exact Nat.zero_le _

/-- One record more would not lie in the bytes any more. -/
theorem within_maximal {back : List Bytes} (id : UInt64)
    (split : log = within count log ++ batch :: back) :
    count < (chain id (within count log ++ [batch])).length := by
  induction log generalizing id count with
  | nil => simp [within] at split
  | cons first log ih =>
    unfold within at split ⊢
    split
    · rename_i fits
      rw [if_pos fits] at split
      obtain ⟨-, rest⟩ := List.cons.inj split
      have longer := ih (id + 1) rest
      rw [List.cons_append, chain, List.length_append, length_encode]
      omega
    · rename_i cut
      rw [if_neg cut] at split
      obtain ⟨rfl, -⟩ := List.cons.inj split
      rw [List.nil_append, chain, List.length_append, length_encode]
      omega

theorem within_of_length_le (id : UInt64) (whole : (chain id log).length ≤ count) :
    within count log = log := by
  induction log generalizing id count with
  | nil => rfl
  | cons batch log ih =>
    rw [chain, List.length_append, length_encode] at whole
    have fits : prefaceLength + batch.length ≤ count := by omega
    rw [within, if_pos fits, ih (id + 1) (by omega)]

/-- Cut records are the records before the cut and the beginning of one. -/
theorem take_chain (short : Short log) (id : UInt64) (count : Nat) :
    ∃ tail, (chain id log).take count = chain id (within count log) ++ tail ∧
      next tail = .incomplete := by
  induction log generalizing id count with
  | nil => exact ⟨[], by simp [chain, within], rfl⟩
  | cons batch log ih =>
    obtain ⟨first, others⟩ := List.forall_mem_cons.mp short
    by_cases fits : prefaceLength + batch.length ≤ count
    · obtain ⟨tail, cut, incomplete⟩ := ih others (id + 1) (count - (prefaceLength + batch.length))
      refine ⟨tail, ?_, incomplete⟩
      have whole : (encode id batch).take count = encode id batch :=
        List.take_of_length_le (by rw [length_encode]; exact fits)
      rw [chain, List.take_append, length_encode, whole, cut, within, if_pos fits, chain,
        List.append_assoc]
    · refine ⟨(chain id (batch :: log)).take count, ?_, ?_⟩
      · rw [within, if_neg fits, chain, List.nil_append]
      · exact next_take (.ofBatch id batch first) (Nat.lt_of_not_le fits) (chain (id + 1) log)

/-- Records are read one after the other, up to what is no record. -/
theorem scanFrom_chain (short : Short log) (incomplete : next tail = .incomplete) {fuel : Nat}
    (enough : log.length < fuel) (offset : Nat) (id : UInt64) :
    scanFrom fuel offset id (chain id log ++ tail) =
      ⟨log, id + UInt64.ofNat log.length, offset + (chain id log).length, none⟩ := by
  induction log generalizing fuel offset id with
  | nil =>
    obtain ⟨left, rfl⟩ := Nat.exists_eq_add_one_of_ne_zero (Nat.ne_of_gt enough)
    rw [chain, List.nil_append, scanFrom, incomplete]
    simp
  | cons batch log ih =>
    obtain ⟨first, others⟩ := List.forall_mem_cons.mp short
    obtain ⟨left, rfl⟩ := Nat.exists_eq_add_one_of_ne_zero (Nat.ne_zero_of_lt enough)
    have rest := ih others (Nat.lt_of_succ_lt_succ enough) (offset + prefaceLength + batch.length)
      (id + 1)
    have stop : offset + prefaceLength + batch.length + (chain (id + 1) log).length =
        offset + (chain id (batch :: log)).length := by
      rw [chain, List.length_append, length_encode]
      omega
    rw [chain, List.append_assoc, scanFrom, next_append first]
    simp only [rest, stop, List.length_cons, add_ofNat_succ]
    rfl

theorem take_file (log : List Bytes) (kept : headerLength ≤ count) :
    (file log).take count = header ++ (chain 1 log).take (count - headerLength) := by
  rw [file, List.take_append, length_header, List.take_of_length_le]
  rw [length_header]
  exact kept

/-- What is read from a file that was cut behind its header. -/
theorem scan_take (short : Short log) (kept : headerLength ≤ count) :
    scan ((file log).take count) = ⟨within (count - headerLength) log,
      1 + UInt64.ofNat (within (count - headerLength) log).length,
      (file (within (count - headerLength) log)).length, none⟩ := by
  obtain ⟨tail, records, incomplete⟩ := take_chain short 1 (count - headerLength)
  have enough :
      (within (count - headerLength) log).length < ((file log).take count).length + 1 := by
    have few := length_le_chain 1 (within (count - headerLength) log)
    rw [take_file log kept, records, List.length_append, List.length_append]
    omega
  have behind : ((file log).take count).drop headerLength =
      chain 1 (within (count - headerLength) log) ++ tail := by
    rw [take_file log kept, List.drop_left' length_header, records]
  rw [scan, behind, length_file]
  exact scanFrom_chain (short.within _) incomplete enough headerLength 1

theorem checkHeader_take (log : List Bytes) (kept : headerLength ≤ count) :
    checkHeader ((file log).take count) = .ok () := by
  have long : ¬ ((file log).take count).length < headerLength := by
    rw [take_file log kept, List.length_append, length_header]
    omega
  unfold checkHeader
  rw [if_neg long, take_file log kept]
  rfl

/-- Cutting off the beginning of a record leaves a journal file. -/
theorem resize_take (short : Short log) (kept : headerLength ≤ count) :
    resize ((file log).take count) (file (within (count - headerLength) log)).length =
      file (within (count - headerLength) log) := by
  obtain ⟨tail, records, incomplete⟩ := take_chain short 1 (count - headerLength)
  have whole : (file log).take count = file (within (count - headerLength) log) ++ tail := by
    rw [take_file log kept, records, file, List.append_assoc]
  rw [whole, resize, List.take_left' rfl]
  simp

end Record

namespace FileJournal

variable {log : List Bytes} {count : Nat}

theorem inspect_take (short : Record.Short log) (kept : Record.headerLength ≤ count) :
    inspect ((Record.file log).take count) =
      let left := Record.within (count - Record.headerLength) log
      .ok ⟨left, 1 + UInt64.ofNat left.length, (Record.file left).length, none⟩ := by
  unfold inspect
  rw [Record.checkHeader_take log kept, Record.scan_take short kept]

end FileJournal

end DeliveryQueue
