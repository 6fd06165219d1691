import DeliveryQueue.Text.Decimal
import DeliveryQueue.Toml.Value

/-!
The values of TOML that are written without quotes or brackets: booleans, numbers, dates and times.
-/
namespace DeliveryQueue.Toml

open Text (isDigit digitValue)

def isHexDigit (c : Char) : Bool :=
  isDigit c || ('a' ≤ c && c ≤ 'f') || ('A' ≤ c && c ≤ 'F')

def hexValue (c : Char) : Nat :=
  if isDigit c then digitValue c
  else if 'a' ≤ c then c.toNat - 'a'.toNat + 10
  else c.toNat - 'A'.toNat + 10

/-- Digits, at least one, with single underscores between them. -/
def isGrouped (digit : Char → Bool) : List Char → Bool
  | [] => false
  | [c] => digit c
  | c :: '_' :: rest => digit c && isGrouped digit rest
  | c :: rest => digit c && isGrouped digit rest

/-- The number that digits write in a base; underscores do not count. -/
def groupedValue (base : Nat) (digits : List Char) : Nat :=
  (digits.filter (· != '_')).foldl (fun n c => n * base + hexValue c) 0

/-- Digits without a zero in front of others. -/
def isPlainDecimal (digits : List Char) : Bool :=
  isGrouped isDigit digits && (digits.length == 1 || digits.head? != some '0')

def unsigned : List Char → List Char
  | '+' :: rest | '-' :: rest => rest
  | chars => chars

def integer? (chars : List Char) : Option Int :=
  match chars with
  | '0' :: 'x' :: digits =>
    if isGrouped isHexDigit digits then some (groupedValue 16 digits) else none
  | '0' :: 'o' :: digits =>
    if isGrouped (fun c => '0' ≤ c && c ≤ '7') digits then some (groupedValue 8 digits) else none
  | '0' :: 'b' :: digits =>
    if isGrouped (fun c => c == '0' || c == '1') digits then some (groupedValue 2 digits) else none
  | '-' :: digits =>
    if isPlainDecimal digits then some (-(groupedValue 10 digits : Int)) else none
  | chars =>
    if isPlainDecimal (unsigned chars) then some (groupedValue 10 (unsigned chars)) else none

/-- Integers are held in 128 bits, below zero with a sign among them. -/
def isInRange (n : Int) : Bool :=
  -(UInt64.size * UInt64.size / 2 : Nat) ≤ n && n < (UInt64.size * UInt64.size : Nat)

/-- The parts of a float. A fraction and an exponent keep the mark in front of them. -/
structure FloatParts where
  whole : List Char
  fraction : List Char
  exponent : List Char

namespace FloatParts

def ofChars (chars : List Char) : FloatParts :=
  let mark (c : Char) : Bool := c == 'e' || c == 'E'
  let number := (unsigned chars).takeWhile (fun c => !mark c)
  { whole := number.takeWhile (· != '.')
    fraction := number.dropWhile (· != '.')
    exponent := (unsigned chars).dropWhile (fun c => !mark c) }

/-- There is a whole part, and then a fraction, an exponent or both. -/
def isWellFormed (parts : FloatParts) : Bool :=
  isPlainDecimal parts.whole
    && (parts.fraction.isEmpty || isGrouped isDigit (parts.fraction.drop 1))
    && (parts.exponent.isEmpty || isGrouped isDigit (unsigned (parts.exponent.drop 1)))
    && !(parts.fraction.isEmpty && parts.exponent.isEmpty)

def exponentValue (parts : FloatParts) : Int :=
  match parts.exponent.drop 1 with
  | '-' :: digits => -(groupedValue 10 digits : Int)
  | digits => groupedValue 10 (unsigned digits)

def wholeDigits (parts : FloatParts) : List Char := parts.whole.filter (· != '_')

def digits (parts : FloatParts) : List Char :=
  parts.wholeDigits ++ (parts.fraction.drop 1).filter (· != '_')

/-- The digits from the first on that is not zero. -/
def significant (parts : FloatParts) : List Char := parts.digits.dropWhile (· == '0')

/-- How many places the significant digits begin in front of the point. -/
def places (parts : FloatParts) : Int :=
  parts.wholeDigits.length - (parts.digits.length - parts.significant.length : Nat)
    + parts.exponentValue

/-- Half way from the greatest float of 64 bits to the power of two after it. From here on a value
is rounded to infinity. It has `overflowPlaces` digits. -/
def overflow : Nat := ((1 <<< 54) - 1) <<< 970

def overflowPlaces : Nat := 309

/-- Whether the value is not rounded to infinity. -/
def isFinite (parts : FloatParts) : Bool :=
  let zeros := List.replicate overflowPlaces '0'
  parts.significant.isEmpty || parts.places < overflowPlaces
    || parts.places == overflowPlaces
      && groupedValue 10 ((parts.significant ++ zeros).take overflowPlaces) < overflow

end FloatParts

def isFloat (chars : List Char) : Bool :=
  unsigned chars = ['i', 'n', 'f'] || unsigned chars = ['n', 'a', 'n']
    || (FloatParts.ofChars chars).isWellFormed && (FloatParts.ofChars chars).isFinite

/-- A number of exactly two digits within bounds. -/
def isPair (low high : Nat) (a b : Char) : Bool :=
  isDigit a && isDigit b && low ≤ digitValue a * 10 + digitValue b
    && digitValue a * 10 + digitValue b ≤ high

/-- How many days a month has. -/
def monthLength (year month : Nat) : Nat :=
  if month = 2 then if year % 4 = 0 ∧ (year % 100 ≠ 0 ∨ year % 400 = 0) then 29 else 28
  else if month = 4 ∨ month = 6 ∨ month = 9 ∨ month = 11 then 30
  else 31

def isDate : List Char → Bool
  | [a, b, c, d, '-', e, f, '-', g, h] =>
    [a, b, c, d].all isDigit && isPair 1 12 e f
      && isPair 1 (monthLength (groupedValue 10 [a, b, c, d]) (groupedValue 10 [e, f])) g h
  | _ => false

/-- The time of a day, with or without seconds and parts of a second. -/
def isTime : List Char → Bool
  | [a, b, ':', c, d] => isPair 0 23 a b && isPair 0 59 c d
  | a :: b :: ':' :: c :: d :: ':' :: e :: f :: rest =>
    isPair 0 23 a b && isPair 0 59 c d && isPair 0 60 e f
      && match rest with
        | [] => true
        | '.' :: digits => !digits.isEmpty && digits.all isDigit
        | _ => false
  | _ => false

/-- A time followed by its distance from universal time. -/
def isZonedTime (chars : List Char) : Bool :=
  let time := chars.takeWhile fun c => isDigit c || c == ':' || c == '.'
  isTime time
    && match chars.drop time.length with
      | ['Z'] | ['z'] => true
      | [sign, a, b, ':', c, d] =>
        (sign == '+' || sign == '-') && isPair 0 23 a b && isPair 0 59 c d
      | _ => false

def isMoment (chars : List Char) : Bool :=
  isDate chars || isTime chars
    || (isDate (chars.take 10)
      && match chars.drop 10 with
        | c :: time => (c == 'T' || c == 't' || c == ' ') && (isTime time || isZonedTime time)
        | [] => false)

/-- The value that a word writes, if it writes one. -/
def scalar? (word : List Char) : Option Value :=
  if word = ['t', 'r', 'u', 'e'] then some (.boolean true)
  else if word = ['f', 'a', 'l', 's', 'e'] then some (.boolean false)
  else
    match integer? word with
    | some n => if isInRange n then some (.integer n) else none
    | none =>
      if isFloat word then some (.float (String.ofList word))
      else if isMoment word then some (.moment (String.ofList word))
      else none

/-- The characters that such words are made of. -/
def isWordChar (c : Char) : Bool :=
  isDigit c || ('a' ≤ c && c ≤ 'z') || ('A' ≤ c && c ≤ 'Z') || c == '_' || c == '+' || c == '-'
    || c == '.' || c == ':'

/-- The word at the front and what follows. A date may be followed by a blank and a time. -/
def splitWord (chars : List Char) : List Char × List Char :=
  let word := chars.takeWhile isWordChar
  let rest := chars.dropWhile isWordChar
  match rest with
  | ' ' :: c :: more =>
    if isDate word && isDigit c then
      (word ++ ' ' :: (c :: more).takeWhile isWordChar, (c :: more).dropWhile isWordChar)
    else (word, rest)
  | _ => (word, rest)

end DeliveryQueue.Toml
