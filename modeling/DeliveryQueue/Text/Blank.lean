/-!
Blank characters (Unicode property White_Space) and texts without them at their ends.
-/
namespace DeliveryQueue.Text

/-- The blank characters as inclusive ranges of code points. -/
def blankRanges : List (Nat × Nat) :=
  [(0x09, 0x0D), (0x20, 0x20), (0x85, 0x85), (0xA0, 0xA0), (0x1680, 0x1680), (0x2000, 0x200A),
   (0x2028, 0x2029), (0x202F, 0x202F), (0x205F, 0x205F), (0x3000, 0x3000)]

def isBlank (c : Char) : Bool :=
  blankRanges.any fun range => range.1 ≤ c.toNat && c.toNat ≤ range.2

example : (blankRanges.map fun range => range.2 + 1 - range.1).sum = 25 := by decide

/-- The text without the blanks at its beginning and its end. -/
def trim (text : String) : String :=
  let ahead := text.toList.dropWhile isBlank
  String.ofList (ahead.reverse.dropWhile isBlank).reverse

/-- ASCII capitals become small letters; every other character stays. -/
def lowerAscii (text : String) : String :=
  String.ofList (text.toList.map fun c =>
    if 'A' ≤ c ∧ c ≤ 'Z' then Char.ofNat (c.toNat + 32) else c)

end DeliveryQueue.Text
