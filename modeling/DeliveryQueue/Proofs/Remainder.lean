import Mathlib.Data.Nat.Bitwise
import DeliveryQueue.Checksum

/-!
What the checksum is sure to notice. Dividing out a bit is linear in exclusive or
(`Checksum.shiftBit_xor`) and loses nothing, for the polynomial has its highest bit. So the
remainder before some bytes can be told from the one behind them, and up to four bytes are taken in
as one number (`Checksum.foldl_absorb`): in one place of a byte string, no others give the same
checksum (`Checksum.crc32_burst`).
-/
namespace DeliveryQueue.Checksum

/-- The lowest bit. -/
theorem and_one_iff (crc : UInt32) : crc &&& 1 = 1 ↔ crc.toNat % 2 = 1 := by
  have bit : (crc &&& 1).toNat = crc.toNat % 2 := by
    rw [UInt32.toNat_and, UInt32.toNat_one, Nat.and_one_is_mod]
  rw [← bit, ← UInt32.toNat_inj, UInt32.toNat_one]

theorem toNat_shiftRight_one (crc : UInt32) : (crc >>> 1).toNat = crc.toNat / 2 := by
  rw [UInt32.toNat_shiftRight, UInt32.toNat_one]
  rfl

theorem shiftBit_xor (a b : UInt32) : shiftBit (a ^^^ b) = shiftBit a ^^^ shiftBit b := by
  have low : (a ^^^ b) &&& 1 = 1 ↔ ¬ (a &&& 1 = 1 ↔ b &&& 1 = 1) := by
    rw [and_one_iff, and_one_iff, and_one_iff, UInt32.toNat_xor, Nat.xor_mod_two_eq_one]
  unfold shiftBit
  simp only [low, UInt32.shiftRight_xor]
  by_cases odd : a &&& 1 = 1 <;> by_cases other : b &&& 1 = 1
  · have twice : a >>> 1 ^^^ polynomial ^^^ (b >>> 1 ^^^ polynomial) = a >>> 1 ^^^ b >>> 1 := by
      rw [UInt32.xor_comm (b >>> 1), ← UInt32.xor_assoc, UInt32.xor_assoc (a >>> 1),
        UInt32.xor_self, UInt32.xor_zero]
    simp [odd, other, twice]
  · simp only [odd, other, iff_false, not_true, not_false_eq_true, if_true, if_false]
    rw [UInt32.xor_assoc, UInt32.xor_comm (b >>> 1), ← UInt32.xor_assoc]
  · simp only [odd, other, iff_true, not_false_eq_true, if_true, if_false]
    rw [UInt32.xor_assoc]
  · simp [odd, other]

/-- Dividing out a bit of something leaves something. -/
theorem eq_zero_of_shiftBit {crc : UInt32} (none : shiftBit crc = 0) : crc = 0 := by
  have half : crc.toNat / 2 < polynomial.toNat := by
    have small : crc.toNat < 2 ^ 32 := crc.toNat_lt
    have large : polynomial.toNat = 3988292384 := rfl
    omega
  unfold shiftBit at none
  split at none
  · -- the highest bit of the polynomial is set, that of half a remainder is not
    have same : crc >>> 1 = polynomial := UInt32.xor_eq_zero_iff.mp none
    rw [← toNat_shiftRight_one, same] at half
    exact absurd half (Nat.lt_irrefl _)
  · rename_i even
    rw [and_one_iff] at even
    have nothing : crc.toNat / 2 = 0 := by rw [← toNat_shiftRight_one, none, UInt32.toNat_zero]
    exact UInt32.toNat_inj.mp (by rw [UInt32.toNat_zero]; omega)

theorem shiftBits_xor (count : Nat) (a b : UInt32) :
    shiftBits count (a ^^^ b) = shiftBits count a ^^^ shiftBits count b := by
  induction count generalizing a b with
  | zero => rfl
  | succ count ih => rw [shiftBits, shiftBit_xor, ih, shiftBits, shiftBits]

theorem eq_zero_of_shiftBits {count : Nat} {crc : UInt32} (none : shiftBits count crc = 0) :
    crc = 0 := by
  induction count generalizing crc with
  | zero => exact none
  | succ count ih => exact eq_zero_of_shiftBit (ih none)

/-- Different remainders stay different. -/
theorem shiftBits_inj {count : Nat} {a b : UInt32} :
    shiftBits count a = shiftBits count b ↔ a = b := by
  refine ⟨fun same => ?_, congrArg _⟩
  have none : shiftBits count (a ^^^ b) = 0 := by
    rw [shiftBits_xor, same, UInt32.xor_self]
  exact UInt32.xor_eq_zero_iff.mp (eq_zero_of_shiftBits none)

theorem shiftBits_add (first count : Nat) (crc : UInt32) :
    shiftBits (first + count) crc = shiftBits count (shiftBits first crc) := by
  induction first generalizing crc with
  | zero => rw [Nat.zero_add, shiftBits]
  | succ first ih => rw [Nat.add_right_comm, shiftBits, ih, shiftBits]

/-- Bits that are not set only move the others down. -/
theorem shiftBits_two_pow_mul {count n : Nat} (fits : 2 ^ count * n < UInt32.size) :
    shiftBits count (.ofNat (2 ^ count * n)) = .ofNat n := by
  induction count with
  | zero => rw [Nat.pow_zero, Nat.one_mul, shiftBits]
  | succ count ih =>
    have double : 2 ^ (count + 1) * n = 2 * (2 ^ count * n) := by
      rw [Nat.pow_succ', Nat.mul_assoc]
    rw [double] at fits ⊢
    have number : (UInt32.ofNat (2 * (2 ^ count * n))).toNat = 2 * (2 ^ count * n) :=
      UInt32.toNat_ofNat_of_lt' fits
    have less : 2 ^ count * n < UInt32.size := by omega
    have even : ¬ UInt32.ofNat (2 * (2 ^ count * n)) &&& 1 = 1 := by
      rw [and_one_iff, number]
      omega
    have half : UInt32.ofNat (2 * (2 ^ count * n)) >>> 1 = .ofNat (2 ^ count * n) := by
      refine UInt32.toNat_inj.mp ?_
      rw [toNat_shiftRight_one, number, UInt32.toNat_ofNat_of_lt' less]
      omega
    rw [shiftBits, shiftBit, if_neg even, half, ih less]

/-- A byte and what is above it. -/
theorem ofNat_byte_add (byte : UInt8) (n : Nat) :
    UInt32.ofNat (byte.toNat + 2 ^ 8 * n) = byte.toUInt32 ^^^ .ofNat (2 ^ 8 * n) := by
  have small : byte.toNat < 2 ^ 8 := byte.toNat_lt
  have apart : byte.toNat + 2 ^ 8 * n = byte.toNat ^^^ 2 ^ 8 * n := by
    refine Nat.eq_of_testBit_eq fun bit => ?_
    rw [Nat.add_comm, Nat.testBit_two_pow_mul_add n small, Nat.testBit_xor, Nat.testBit_two_pow_mul]
    by_cases low : bit < 8
    · simp [low, Nat.not_le.mpr low]
    · have clear : byte.toNat.testBit bit = false :=
        Nat.testBit_lt_two_pow (Nat.lt_of_lt_of_le small
          (Nat.pow_le_pow_right (by decide) (Nat.not_lt.mp low)))
      simp [low, Nat.not_lt.mp low, clear]
  have widened : UInt32.ofNat byte.toNat = byte.toUInt32 := by
    rw [← UInt8.toNat_toUInt32, UInt32.ofNat_toNat]
  rw [apart, UInt32.ofNat_xor, widened]

theorem span_le_of_le_four {width : Nat} (few : width ≤ 4) : span width ≤ UInt32.size := by
  revert few
  match width with
  | 0 | 1 | 2 | 3 | 4 => decide
  | width + 5 => omega

/-- Up to four bytes are taken in as one number. -/
theorem foldl_absorb (crc : UInt32) {bytes : Bytes} (few : bytes.length ≤ 4) :
    bytes.foldl absorb crc =
      shiftBits (8 * bytes.length) (crc ^^^ .ofNat (ofLittleEndian bytes)) := by
  induction bytes generalizing crc with
  | nil => exact UInt32.xor_zero.symm
  | cons byte bytes ih =>
    have number : ofLittleEndian (byte :: bytes) = byte.toNat + 2 ^ 8 * ofLittleEndian bytes := rfl
    have fits : 2 ^ 8 * ofLittleEndian bytes < UInt32.size := by
      have small := ofLittleEndian_lt (byte :: bytes)
      have bound := span_le_of_le_four few
      omega
    have count : 8 * (byte :: bytes).length = 8 + 8 * bytes.length := by
      rw [List.length_cons]
      omega
    have whole : crc ^^^ .ofNat (ofLittleEndian (byte :: bytes)) =
        crc ^^^ byte.toUInt32 ^^^ .ofNat (2 ^ 8 * ofLittleEndian bytes) := by
      rw [number, ofNat_byte_add, UInt32.xor_assoc]
    rw [List.foldl_cons, ih _ (Nat.le_of_succ_le few), count, shiftBits_add, whole, shiftBits_xor 8,
      shiftBits_two_pow_mul fits, absorb]

/-- The same bytes behind keep different remainders different. -/
theorem foldl_absorb_inj {bytes : Bytes} {a b : UInt32} :
    bytes.foldl absorb a = bytes.foldl absorb b ↔ a = b := by
  induction bytes generalizing a b with
  | nil => rfl
  | cons byte bytes ih =>
    rw [List.foldl_cons, List.foldl_cons, ih, absorb, absorb, shiftBits_inj, UInt32.xor_left_inj]

/-- Up to four bytes in a place can be told by the checksum of the whole. -/
theorem crc32_burst {front some others rest : Bytes} (long : others.length = some.length)
    (few : some.length ≤ 4)
    (same : crc32 (front ++ others ++ rest) = crc32 (front ++ some ++ rest)) : others = some := by
  have remainders := UInt32.not_inj.mp same
  simp only [List.foldl_append, foldl_absorb_inj] at remainders
  rw [foldl_absorb _ few, foldl_absorb _ (long ▸ few), long, shiftBits_inj,
    UInt32.xor_right_inj] at remainders
  have numbers : ofLittleEndian others = ofLittleEndian some := by
    have bound := span_le_of_le_four few
    have small := ofLittleEndian_lt some
    have less := ofLittleEndian_lt others
    rw [long] at less
    have back := congrArg UInt32.toNat remainders
    rwa [UInt32.toNat_ofNat_of_lt' (Nat.lt_of_lt_of_le less bound),
      UInt32.toNat_ofNat_of_lt' (Nat.lt_of_lt_of_le small bound)] at back
  rw [← littleEndian_ofLittleEndian others, numbers, long, littleEndian_ofLittleEndian]

end DeliveryQueue.Checksum
