import DeliveryQueue.Message

/-!
The numbers that order the entries of a store. Gaps do no harm, a number drawn twice would.
-/
namespace DeliveryQueue

structure Sequence where
  /-- The number that is drawn next. -/
  next : UInt64
  deriving DecidableEq, Repr

namespace Sequence

/-- A fresh store begins in the middle of the range. -/
def start : UInt64 := 0x7FFFFFFFFFFFFFFF

def fresh : Sequence := ⟨start⟩

def advance (sequence : Sequence) : Sequence := ⟨sequence.next + 1⟩

/-- Go past a number found in a journal, never back. -/
def resumeAfter (sequence : Sequence) (highest : UInt64) : Sequence :=
  ⟨max sequence.next (saturatingAdd highest 1)⟩

end Sequence

end DeliveryQueue
