import DeliveryQueue.Message

/-!
Notices about messages that were dropped for want of room.
-/
namespace DeliveryQueue

inductive Notice
  /-- A queue was at its depth limit. -/
  | queueFull (queue topic : String) (qos : Qos)
  /-- The QoS 0 budget was exceeded; the message left a client queue or a shared one. -/
  | qos0Memory (shared : Bool) (queue topic : String) (qos : Qos) (used limit : UInt64)
  deriving DecidableEq, Repr

/-- How many notices of each kind there were. -/
structure NoticeCounts where
  queueFull : Nat
  qos0Memory : Nat
  qos0MemoryShared : Nat
  deriving DecidableEq, Repr

namespace NoticeCounts

def zero : NoticeCounts := ⟨0, 0, 0⟩

def add (counts : NoticeCounts) : Notice → NoticeCounts
  | .queueFull .. => { counts with queueFull := counts.queueFull + 1 }
  | .qos0Memory false .. => { counts with qos0Memory := counts.qos0Memory + 1 }
  | .qos0Memory true .. => { counts with qos0MemoryShared := counts.qos0MemoryShared + 1 }

end NoticeCounts

end DeliveryQueue
