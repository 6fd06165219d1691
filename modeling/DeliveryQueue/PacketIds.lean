import DeliveryQueue.Message
import DeliveryQueue.Table

/-!
The packet ids in flight in one queue. The ids come from the caller; the queue sees to it that no
two entries hold the same one.
-/
namespace DeliveryQueue

/-- Each id in flight with the sequence number of the entry that holds it. -/
structure PacketIds where
  holders : Table UInt16 UInt64
  deriving DecidableEq, Repr

namespace PacketIds

def empty : PacketIds := ⟨Table.empty⟩

instance : Inhabited PacketIds := ⟨empty⟩

def holder? (ids : PacketIds) (id : UInt16) : Option UInt64 := ids.holders.get? id

def inFlight (ids : PacketIds) (id : UInt16) : Bool := (ids.holder? id).isSome

def size (ids : PacketIds) : Nat := ids.holders.size

def isEmpty (ids : PacketIds) : Bool := ids.size == 0

/-- Whether the entry at `sequence` may take `id`: nobody holds it, or that entry does already. -/
def available (ids : PacketIds) (id : UInt16) (sequence : UInt64) : Bool :=
  match ids.holder? id with
  | none => true
  | some holder => holder == sequence

/-- Give `id` to the entry at `sequence`, unless another entry holds it. -/
def occupy (ids : PacketIds) (id : UInt16) (sequence : UInt64) : PacketIds :=
  if ids.available id sequence then ⟨ids.holders.insert id sequence⟩ else ids

/-- Take `id` back from the entry at `sequence`, if it is the holder. -/
def vacate (ids : PacketIds) (id : UInt16) (sequence : UInt64) : PacketIds :=
  if ids.holder? id = some sequence then ⟨ids.holders.erase id⟩ else ids

/-- The ids of a pool that can be given out: in pool order, once each, without zero and without
those in flight. -/
def free (ids : PacketIds) (pool : List UInt16) : List UInt16 :=
  (pool.filter fun id => id != noPacketId && !ids.inFlight id).eraseDups

end PacketIds

end DeliveryQueue
