import DeliveryQueue.Message

/-!
The byte budget that all waiting QoS 0 messages of a store share. The count is a 64-bit word: it
wraps around when it grows and stops at zero when it shrinks.
-/
namespace DeliveryQueue

structure Budget where
  limit : UInt64
  used : UInt64
  deriving DecidableEq, Repr

namespace Budget

def ofLimit (limit : UInt64) : Budget := ⟨limit, 0⟩

/-- One part in `divisor` of the memory, where a divisor of zero counts as one. -/
def limitOf (memory divisor : UInt64) : UInt64 := memory / (if divisor = 0 then 1 else divisor)

def charge (budget : Budget) (bytes : UInt64) : Budget :=
  { budget with used := budget.used + bytes }

def refund (budget : Budget) (bytes : UInt64) : Budget :=
  { budget with used := saturatingSub budget.used bytes }

def exceeded (budget : Budget) : Bool := budget.limit < budget.used

end Budget

end DeliveryQueue
