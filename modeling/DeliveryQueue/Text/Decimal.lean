/-!
Unsigned numbers written in decimal: an optional `+`, then at least one digit, nothing else.
-/
namespace DeliveryQueue.Text

inductive DecimalError
  | empty
  | invalidDigit
  | tooLarge
  deriving DecidableEq, Repr

def DecimalError.message : DecimalError → String
  | .empty => "cannot parse integer from empty string"
  | .invalidDigit => "invalid digit found in string"
  | .tooLarge => "number too large to fit in target type"

def isDigit (c : Char) : Bool := '0' ≤ c && c ≤ '9'

def digitValue (c : Char) : Nat := c.toNat - '0'.toNat

/-- Read digits from the left onto `read`. The first fault met on the way wins: a character that is
no digit, or a value that no longer fits below `bound`. -/
def readDigits (bound : Nat) : Nat → List Char → Except DecimalError Nat
  | read, [] => .ok read
  | read, c :: rest =>
    if !isDigit c then .error .invalidDigit
    else if bound ≤ read * 10 + digitValue c then .error .tooLarge
    else readDigits bound (read * 10 + digitValue c) rest

/-- The number below `bound` that `text` writes. -/
def readDecimal (bound : Nat) (text : String) : Except DecimalError Nat :=
  match text.toList with
  | [] => .error .empty
  | ['+'] => .error .invalidDigit
  | '+' :: rest => readDigits bound 0 rest
  | digits => readDigits bound 0 digits

end DeliveryQueue.Text
