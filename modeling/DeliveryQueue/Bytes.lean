/-!
Byte strings and the numbers written in them. A number of fixed width is written with its
lowest byte first (`littleEndian`) or its highest byte first (`bigEndian`); reading undoes writing
when the number fits the width, and writing undoes reading for every byte string.
-/
namespace DeliveryQueue

abbrev Bytes := List UInt8

/-- The UTF-8 bytes of a text. -/
def utf8 (text : String) : Bytes := text.toUTF8.data.toList

/-- The text that these bytes encode in UTF-8, if they encode one. -/
def ofUtf8? (bytes : Bytes) : Option String := String.fromUTF8? ⟨bytes.toArray⟩

/-- How many numbers fit in so many bytes. -/
def span : Nat → Nat
  | 0 => 1
  | width + 1 => 256 * span width

example : span 4 = UInt32.size ∧ span 8 = UInt64.size := by decide

/-- The last `width` base-256 digits of `n`, lowest first. -/
def littleEndian : Nat → Nat → Bytes
  | 0, _ => []
  | width + 1, n => UInt8.ofNat n :: littleEndian width (n / 256)

/-- The number whose base-256 digits, lowest first, are these bytes. -/
def ofLittleEndian : Bytes → Nat
  | [] => 0
  | b :: bytes => b.toNat + 256 * ofLittleEndian bytes

/-- The last `width` base-256 digits of `n`, highest first. -/
def bigEndian (width n : Nat) : Bytes := (littleEndian width n).reverse

/-- The number whose base-256 digits, highest first, are these bytes. -/
def ofBigEndian (bytes : Bytes) : Nat := ofLittleEndian bytes.reverse

/-- One byte that says yes or no. -/
def flagByte (b : Bool) : UInt8 := if b then 1 else 0

/-- The first `count` bytes and those after them, if there are that many. -/
def splitExact (count : Nat) (bytes : Bytes) : Option (Bytes × Bytes) :=
  let chunk := bytes.take count
  if chunk.length = count then some (chunk, bytes.drop count) else none

/-- Cut `bytes` to `length`, or fill it up with zeros. -/
def resize (bytes : Bytes) (length : Nat) : Bytes :=
  bytes.take length ++ List.replicate (length - bytes.length) 0

/-- Overwrite `bytes` from `offset` on, filling a gap with zeros and growing at the end. Writing
nothing changes nothing. -/
def overwrite (bytes : Bytes) (offset : Nat) (written : Bytes) : Bytes :=
  if written.isEmpty then bytes
  else resize bytes offset ++ written ++ bytes.drop (offset + written.length)

theorem add_ofNat_succ (word : UInt64) (n : Nat) :
    word + .ofNat (n + 1) = word + 1 + .ofNat n := by
  rw [UInt64.ofNat_add, UInt64.ofNat_one, UInt64.add_assoc, UInt64.add_comm 1]

@[simp] theorem length_littleEndian (width n : Nat) : (littleEndian width n).length = width := by
  induction width generalizing n with
  | zero => rfl
  | succ width ih => simp [littleEndian, ih]

@[simp] theorem length_bigEndian (width n : Nat) : (bigEndian width n).length = width := by
  simp [bigEndian]

theorem ofLittleEndian_littleEndian {width n : Nat} (fits : n < span width) :
    ofLittleEndian (littleEndian width n) = n := by
  induction width generalizing n with
  | zero => simp_all [span, littleEndian, ofLittleEndian]
  | succ width ih =>
    have smaller : n / 256 < span width := by
      simp only [span] at fits
      omega
    have digits : n % 256 + 256 * (n / 256) = n := Nat.mod_add_div n 256
    simpa [littleEndian, ofLittleEndian, ih smaller] using digits

theorem littleEndian_ofLittleEndian (bytes : Bytes) :
    littleEndian bytes.length (ofLittleEndian bytes) = bytes := by
  induction bytes with
  | nil => rfl
  | cons b bytes ih =>
    have low : b.toNat < 256 := b.toNat_lt
    have rest : (b.toNat + 256 * ofLittleEndian bytes) / 256 = ofLittleEndian bytes := by omega
    have first : UInt8.ofNat (b.toNat + 256 * ofLittleEndian bytes) = b := by
      apply UInt8.toNat_inj.mp
      simp
    simp only [List.length_cons, littleEndian, ofLittleEndian, first, rest, ih]

theorem ofLittleEndian_lt (bytes : Bytes) : ofLittleEndian bytes < span bytes.length := by
  induction bytes with
  | nil => simp [span, ofLittleEndian]
  | cons b bytes ih =>
    have low : b.toNat < 256 := b.toNat_lt
    simp only [ofLittleEndian, List.length_cons, span]
    omega

theorem ofBigEndian_bigEndian {width n : Nat} (fits : n < span width) :
    ofBigEndian (bigEndian width n) = n := by
  simp [ofBigEndian, bigEndian, ofLittleEndian_littleEndian fits]

theorem bigEndian_ofBigEndian (bytes : Bytes) :
    bigEndian bytes.length (ofBigEndian bytes) = bytes := by
  have back := littleEndian_ofLittleEndian bytes.reverse
  rw [List.length_reverse] at back
  simp [bigEndian, ofBigEndian, back]

theorem ofBigEndian_lt (bytes : Bytes) : ofBigEndian bytes < span bytes.length := by
  simpa [ofBigEndian] using ofLittleEndian_lt bytes.reverse

theorem splitExact_eq_some_iff {count : Nat} {bytes chunk rest : Bytes} :
    splitExact count bytes = some (chunk, rest) ↔ chunk.length = count ∧ bytes = chunk ++ rest := by
  simp only [splitExact]
  split
  · rename_i full
    simp only [Option.some.injEq, Prod.mk.injEq]
    constructor
    · rintro ⟨rfl, rfl⟩
      exact ⟨full, (List.take_append_drop count bytes).symm⟩
    · rintro ⟨rfl, rfl⟩
      simp
  · rename_i short
    simp only [reduceCtorEq, false_iff, not_and]
    rintro rfl rfl
    simp at short

theorem splitExact_append {count : Nat} {chunk rest : Bytes} (h : chunk.length = count) :
    splitExact count (chunk ++ rest) = some (chunk, rest) :=
  splitExact_eq_some_iff.mpr ⟨h, rfl⟩

theorem splitExact_eq_none_iff {count : Nat} {bytes : Bytes} :
    splitExact count bytes = none ↔ bytes.length < count := by
  simp only [splitExact, List.length_take]
  split <;> simp <;> omega

theorem ofUtf8?_utf8 (text : String) : ofUtf8? (utf8 text) = some text := by
  have valid : (⟨text.toUTF8.data.toList.toArray⟩ : ByteArray).IsValidUTF8 := text.isValidUTF8
  simp only [ofUtf8?, utf8, String.fromUTF8?, valid, ↓reduceDIte]
  rfl

theorem utf8_of_ofUtf8? {bytes : Bytes} {text : String} (h : ofUtf8? bytes = some text) :
    utf8 text = bytes := by
  simp only [ofUtf8?, String.fromUTF8?] at h
  split at h
  · cases h; rfl
  · cases h

end DeliveryQueue
