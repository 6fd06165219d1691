import DeliveryQueue.Queue.Entry
import DeliveryQueue.Queue.Key

/-!
The changes that a bucket makes to its entries. They are what a journal records, and replaying them
brings the entries back.
-/
namespace DeliveryQueue

inductive Change
  | insert (key : EntryKey) (entry : Entry)
  | delete (key : EntryKey)
  /-- Put a message in flight under an id, or back to waiting. -/
  | assign (key : EntryKey) (packetId : Option UInt16)
  /-- Mark a message of a shared queue as taken, or as waiting again. -/
  | mark (key : EntryKey) (taken : Bool)
  /-- Put a PUBREL in the place of the entry. -/
  | release (key : EntryKey) (packetId : UInt16)
  deriving DecidableEq, Repr

namespace Change

def key : Change → EntryKey
  | insert key _ | delete key | assign key _ | mark key _ | release key _ => key

/-- The entry that the change brings in. -/
def inserted? : Change → Option Entry
  | insert _ entry => some entry
  | _ => none

end Change

/-- The entry after its packet id was set; only a PUBLISH takes one. -/
def Entry.assigned (packetId : Option UInt16) : Entry → Entry
  | .publish stored => .publish { stored with packetId }
  | other => other

/-- The entry after it was marked as taken or as waiting; only the opposite kind changes. -/
def Entry.marked (taken : Bool) : Entry → Entry
  | .publish stored => if taken then .taken { stored with packetId := none } else .publish stored
  | .taken stored => if taken then .taken stored else .publish stored
  | other => other

end DeliveryQueue
