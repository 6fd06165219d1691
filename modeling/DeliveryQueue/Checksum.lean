import DeliveryQueue.Bytes

/-!
The CRC-32 of a byte string (IEEE 802.3, reflected, polynomial 0xEDB88320), bit by bit.
-/
namespace DeliveryQueue.Checksum

def polynomial : UInt32 := 0xEDB88320

/-- Divide out one bit. -/
def shiftBit (crc : UInt32) : UInt32 :=
  if crc &&& 1 = 1 then (crc >>> 1) ^^^ polynomial else crc >>> 1

def shiftBits : Nat → UInt32 → UInt32
  | 0, crc => crc
  | bits + 1, crc => shiftBits bits (shiftBit crc)

/-- Take one more byte into the remainder. -/
def absorb (crc : UInt32) (byte : UInt8) : UInt32 := shiftBits 8 (crc ^^^ byte.toUInt32)

def crc32 (bytes : Bytes) : UInt32 := ~~~(bytes.foldl absorb 0xFFFFFFFF)

/-- The check value of the algorithm's catalogue entry. -/
example : crc32 [0x31, 0x32, 0x33, 0x34, 0x35, 0x36, 0x37, 0x38, 0x39] = 0xCBF43926 := by
  decide +kernel

def hexDigit (n : Nat) : Char :=
  if n < 10 then Char.ofNat (48 + n) else Char.ofNat (87 + n)

/-- The last `count` hexadecimal digits of a number, highest first. -/
def hexDigits : Nat → Nat → List Char
  | 0, _ => []
  | count + 1, n => hexDigits count (n / 16) ++ [hexDigit (n % 16)]

/-- Eight lower-case hexadecimal digits. -/
def hex (crc : UInt32) : String := String.ofList (hexDigits 8 crc.toNat)

example : hex 0x0CF43926 = "0cf43926" := by decide +kernel

end DeliveryQueue.Checksum
