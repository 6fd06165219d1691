import DeliveryQueue.Queue.Batch

/-!
Reading a batch gives back what was written, up to one spelling: an absent packet id is written as
zero, so a message that holds the id zero is read as one that holds none (`decode_bytes`). A batch
of 2^32 changes or more is written with a wrong count, and reading refuses it
(`eq_of_decode_bytes`).
-/
namespace DeliveryQueue

/-- The id as it reads after it was written. -/
def spelledId (packetId : Option UInt16) : Option UInt16 :=
  if packetId = some noPacketId then none else packetId

def StoredPublish.spelled (stored : StoredPublish) : StoredPublish :=
  { stored with packetId := spelledId stored.packetId }

def Entry.spelled : Entry → Entry
  | .publish stored => .publish stored.spelled
  | .pubrel packetId => .pubrel packetId
  | .taken stored => .taken stored.spelled

def Change.spelled : Change → Change
  | .insert key entry => .insert key entry.spelled
  | .assign key packetId => .assign key (spelledId packetId)
  | change => change

namespace Batch

/-- The bytes of a batch whose texts fit. -/
def bytes (changes : List Change) : Bytes :=
  bigEndian 4 changes.length ++ changes.flatMap changeBytes

def Fits (texts : List (Field × String)) : Prop := ∀ t ∈ texts, fits t.2 = true

theorem overlong?_eq_none_iff {texts : List (Field × String)} :
    overlong? texts = none ↔ Fits texts := by
  simp [overlong?, Fits, List.find?_eq_none]

theorem encode_eq_ok_iff {changes : List Change} {batch : Bytes} :
    encode changes = .ok batch ↔ Fits (changes.flatMap changeTexts) ∧ batch = bytes changes := by
  rw [encode, ← overlong?_eq_none_iff]
  cases overlong? (changes.flatMap changeTexts) with
  | none => simp [bytes, eq_comm]
  | some field => simp

/-- A snapshot is the batch that inserts every entry. -/
theorem encodeSnapshot_eq_encode (entries : List (EntryKey × Entry)) :
    encodeSnapshot entries = encode (entries.map fun e => .insert e.1 e.2) := by
  have texts : (entries.map fun e => Change.insert e.1 e.2).flatMap changeTexts =
      entries.flatMap fun e => (.queueId, e.1.queue.id) :: entryTexts e.2 := by
    simp [List.flatMap_map, changeTexts, Change.key, Change.inserted?]
  simp only [encodeSnapshot, encode, texts, List.length_map, List.flatMap_map, changeBytes]

/-! Each reader undoes its writer and leaves the bytes behind alone. -/

section Readers
variable (field : Field) (rest : Bytes)

theorem ofNat_ofBigEndian_word64 (n : UInt64) :
    UInt64.ofNat (ofBigEndian (word64 n)) = n := by
  have fits : n.toNat < span 8 := n.toNat_lt
  rw [word64, ofBigEndian_bigEndian fits, UInt64.ofNat_toNat]

theorem ofNat_ofBigEndian_word16 (n : UInt16) :
    UInt16.ofNat (ofBigEndian (word16 n)) = n := by
  have fits : n.toNat < span 2 := n.toNat_lt
  rw [word16, ofBigEndian_bigEndian fits, UInt16.ofNat_toNat]

theorem readNumber_append {width : Nat} {chunk : Bytes} (h : chunk.length = width) :
    readNumber width field (chunk ++ rest) = .ok (ofBigEndian chunk, rest) := by
  simp only [readNumber, readChunk, splitExact_append h]
  rfl

@[simp] theorem readByte_cons (b : UInt8) : readByte field (b :: rest) = .ok (b, rest) := rfl

@[simp] theorem readWord64_append (n : UInt64) :
    readWord64 field (word64 n ++ rest) = .ok (n, rest) := by
  have length : (word64 n).length = 8 := length_bigEndian 8 n.toNat
  simp only [readWord64, readNumber_append field rest length, bind, Except.bind, pure, Except.pure,
    ofNat_ofBigEndian_word64]

@[simp] theorem readWord16_append (n : UInt16) :
    readWord16 field (word16 n ++ rest) = .ok (n, rest) := by
  have length : (word16 n).length = 2 := length_bigEndian 2 n.toNat
  simp only [readWord16, readNumber_append field rest length, bind, Except.bind, pure, Except.pure,
    ofNat_ofBigEndian_word16]

@[simp] theorem readFlag_cons (flag : Bool) :
    readFlag field (flagByte flag :: rest) = .ok (flag, rest) := by
  cases flag <;> rfl

theorem length_utf8 (text : String) : (utf8 text).length = text.utf8ByteSize := rfl

theorem readText_append {text : String} (short : fits text = true) :
    readText field (textBytes text ++ rest) = .ok (text, rest) := by
  have size : (utf8 text).length ≤ 65535 := by simpa [fits, length_utf8] using short
  have length : ofBigEndian (bigEndian 2 (utf8 text).length) = (utf8 text).length :=
    ofBigEndian_bigEndian (Nat.lt_of_le_of_lt size (by decide))
  simp only [readText, textBytes, List.append_assoc,
    readNumber_append field _ (length_bigEndian 2 _), length, readChunk, splitExact_append, bind,
    Except.bind, pure, Except.pure, ofUtf8?_utf8]

@[simp] theorem presentId_getD (packetId : Option UInt16) :
    presentId (packetId.getD noPacketId) = spelledId packetId := by
  cases packetId <;> simp [presentId, spelledId]

@[simp] theorem readQos_cons (qos : Qos) : readQos (qos.level :: rest) = .ok (qos, rest) := by
  cases qos <;> rfl

@[simp] theorem readExpiry_append (expiry : Option UInt64) :
    readExpiry (expiryBytes expiry ++ rest) = .ok (expiry, rest) := by
  cases expiry with
  | none => rfl
  | some seconds =>
    simp only [expiryBytes, List.cons_append, readExpiry, show (1 : UInt8) = flagByte true from rfl,
      readFlag_cons, bind, Except.bind, pure, Except.pure, readWord64_append, if_true]

theorem readKey_append {key : EntryKey} (short : fits key.queue.id = true) :
    readKey (keyBytes key ++ rest) = .ok (key, rest) := by
  simp only [readKey, keyBytes, List.cons_append, List.append_assoc, readFlag_cons, bind,
    Except.bind, pure, Except.pure, readText_append _ _ short, readWord64_append]

theorem readPublish_append {stored : StoredPublish} (topic : fits stored.topic = true)
    (uniqueId : fits stored.uniqueId = true) :
    readPublish (publishBytes stored ++ rest) = .ok (stored.spelled, rest) := by
  have header (more : Bytes) : require 4 .publishHeader (word16 (stored.packetId.getD noPacketId) ++
      (stored.qos.level :: flagByte stored.retain :: more)) = .ok () := by
    have length : (word16 (stored.packetId.getD noPacketId) ++
        [stored.qos.level, flagByte stored.retain]).length = 4 := by simp [word16]
    have split : splitExact 4 _ = some (_, more) := splitExact_append length
    simp only [List.append_assoc, List.cons_append, List.nil_append] at split
    simp only [require, split]
  simp only [readPublish, publishBytes, idBytes, List.append_assoc, List.cons_append,
    List.nil_append, header, readWord16_append, readQos_cons, readFlag_cons,
    readText_append _ _ topic, readText_append _ _ uniqueId, readWord64_append, readExpiry_append,
    presentId_getD, bind, Except.bind, pure, Except.pure, StoredPublish.spelled]

theorem readEntry_append {entry : Entry} (short : Fits (entryTexts entry)) :
    readEntry (entryBytes entry ++ rest) = .ok (entry.spelled, rest) := by
  cases entry with
  | pubrel packetId =>
    simp only [entryBytes, List.cons_append, readEntry, readByte_cons, bind, Except.bind,
      readWord16_append, pure, Except.pure, Entry.spelled]
    rfl
  | publish stored | taken stored =>
    simp only [Fits, entryTexts, Entry.message?, List.mem_cons, List.not_mem_nil, or_false,
      forall_eq_or_imp, forall_eq] at short
    simp only [entryBytes, List.cons_append, readEntry, readByte_cons, bind, Except.bind,
      readPublish_append rest short.1 short.2, pure, Except.pure, Entry.spelled]
    rfl

theorem readChange_append {change : Change} (short : Fits (changeTexts change)) :
    readChange (changeBytes change ++ rest) = .ok (change.spelled, rest) := by
  have id : fits change.key.queue.id = true := short (.queueId, _) List.mem_cons_self
  cases change with
  | insert key entry =>
    have texts : Fits (entryTexts entry) := fun t member =>
      short t (List.mem_cons_of_mem _ (by simpa [Change.inserted?] using member))
    change fits key.queue.id = true at id
    simp only [changeBytes, List.cons_append, List.append_assoc, readChange, readByte_cons, bind,
      Except.bind, readKey_append _ id, readEntry_append rest texts, pure, Except.pure,
      Change.spelled]
    rfl
  | delete key =>
    change fits key.queue.id = true at id
    simp only [changeBytes, List.cons_append, readChange, readByte_cons, bind, Except.bind,
      readKey_append _ id, pure, Except.pure, Change.spelled]
    rfl
  | assign key packetId =>
    change fits key.queue.id = true at id
    simp only [changeBytes, idBytes, List.cons_append, List.append_assoc, readChange, readByte_cons,
      bind, Except.bind, readKey_append _ id, readWord16_append, pure, Except.pure, presentId_getD,
      Change.spelled]
    rfl
  | mark key taken =>
    change fits key.queue.id = true at id
    simp only [changeBytes, List.cons_append, List.append_assoc, List.nil_append, readChange,
      readByte_cons, bind, Except.bind, readKey_append _ id, readFlag_cons, pure, Except.pure,
      Change.spelled]
    rfl
  | release key packetId =>
    change fits key.queue.id = true at id
    simp only [changeBytes, List.cons_append, List.append_assoc, readChange, readByte_cons, bind,
      Except.bind, readKey_append _ id, readWord16_append, pure, Except.pure, Change.spelled]
    rfl

theorem readChanges_append {changes : List Change} (short : Fits (changes.flatMap changeTexts)) :
    readChanges changes.length (changes.flatMap changeBytes ++ rest) =
      .ok (changes.map Change.spelled, rest) := by
  induction changes with
  | nil => rfl
  | cons change changes ih =>
    have first : Fits (changeTexts change) := fun t member =>
      short t (List.mem_flatMap.mpr ⟨change, List.mem_cons_self, member⟩)
    have others : Fits (changes.flatMap changeTexts) := fun t member =>
      short t (by simpa using .inr (List.mem_flatMap.mp member))
    simp only [List.length_cons, List.flatMap_cons, List.append_assoc, readChanges, bind,
      Except.bind, readChange_append _ first, ih others, pure, Except.pure, List.map_cons]

end Readers

theorem decode_bytes {changes : List Change} (short : Fits (changes.flatMap changeTexts))
    (few : changes.length < UInt32.size) :
    decode (bytes changes) = .ok (changes.map Change.spelled) := by
  have count : ofBigEndian (bigEndian 4 changes.length) = changes.length :=
    ofBigEndian_bigEndian few
  have read := readChanges_append [] short
  rw [List.append_nil] at read
  simp only [decode, bytes, readNumber_append _ _ (length_bigEndian 4 _), count, bind, Except.bind,
    read, List.isEmpty_nil, pure, Except.pure, if_true]

theorem changeBytes_ne_nil (change : Change) : changeBytes change ≠ [] := by
  cases change <;> simp [changeBytes]

/-- A batch too long for its count is refused, never misread: bytes are left over. -/
theorem eq_of_decode_bytes {changes found : List Change}
    (short : Fits (changes.flatMap changeTexts)) (read : decode (bytes changes) = .ok found) :
    found = changes.map Change.spelled := by
  by_cases few : changes.length < UInt32.size
  · rw [decode_bytes short few] at read
    exact (Except.ok.inj read).symm
  · generalize counted : ofBigEndian (bigEndian 4 changes.length) = count
    have below : count < changes.length := by
      have bound := ofBigEndian_lt (bigEndian 4 changes.length)
      rw [counted, length_bigEndian, show span 4 = UInt32.size by decide] at bound
      omega
    have front : Fits ((changes.take count).flatMap changeTexts) := by
      intro t member
      obtain ⟨change, taken, its⟩ := List.mem_flatMap.mp member
      exact short t (List.mem_flatMap.mpr ⟨change, List.mem_of_mem_take taken, its⟩)
    have left : (changes.drop count).flatMap changeBytes ≠ [] := by
      intro nothing
      obtain ⟨change, back⟩ := List.exists_mem_of_length_pos
        (show 0 < (changes.drop count).length by rw [List.length_drop]; omega)
      exact changeBytes_ne_nil change (List.flatMap_eq_nil_iff.mp nothing change back)
    have first := readChanges_append ((changes.drop count).flatMap changeBytes) front
    rw [← List.flatMap_append, List.take_append_drop, List.length_take,
      Nat.min_eq_left (Nat.le_of_lt below)] at first
    simp only [decode, bytes, readNumber_append _ _ (length_bigEndian 4 _), counted, bind,
      Except.bind, first] at read
    simp [left] at read

end Batch

end DeliveryQueue
