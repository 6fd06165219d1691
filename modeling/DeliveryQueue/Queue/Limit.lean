import DeliveryQueue.Message
import DeliveryQueue.Text.Blank

/-!
Depth limits. A queue is limited for QoS 0 and for QoS 1 and 2 apart, so neither class crowds out
the other; at its limit, a policy says which message gives way.
-/
namespace DeliveryQueue

/-- The two kinds of message that are counted apart. -/
inductive MessageClass
  | qos0
  | qos12
  deriving DecidableEq, Repr

def MessageClass.of : Qos → MessageClass
  | .atMostOnce => .qos0
  | .atLeastOnce | .exactlyOnce => .qos12

inductive DiscardPolicy
  /-- Turn the incoming message away. -/
  | discard
  /-- Make room by dropping the oldest waiting message of the class. -/
  | discardOldest
  deriving DecidableEq, Repr, Inhabited

namespace DiscardPolicy

def text : DiscardPolicy → String
  | discard => "discard"
  | discardOldest => "discard_oldest"

/-- Only the exact words. -/
def ofWord? : String → Option DiscardPolicy
  | "discard" => some discard
  | "discard_oldest" => some discardOldest
  | _ => none

/-- Reads a policy with blanks around it, in capitals or small letters, and with either `_` or `-`.
What it cannot read it returns without blanks and in small letters. -/
def read (text : String) : Except String DiscardPolicy :=
  let word := Text.lowerAscii (Text.trim text)
  match ofWord? word with
  | some policy => .ok policy
  | none => if word = "discard-oldest" then .ok discardOldest else .error word

/-- Why `read` failed. -/
def unknownMessage (word : String) : String := "unknown discard policy '" ++ word ++ "'"

end DiscardPolicy

def atLimit (count limit : Nat) : Bool := limit ≤ count

/-- What happens to a message that comes to a queue. -/
inductive Admission
  | accept
  | dropIncoming
  | evictOldest
  deriving DecidableEq, Repr

/-- The policy speaks only at the limit. -/
def Admission.decide (count limit : Nat) (policy : DiscardPolicy) : Admission :=
  if atLimit count limit then
    match policy with
    | .discard => .dropIncoming
    | .discardOldest => .evictOldest
  else .accept

end DeliveryQueue
