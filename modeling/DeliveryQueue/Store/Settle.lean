import DeliveryQueue.Store.Add

/-!
Settling what was handed out, and emptying queues.
-/
namespace DeliveryQueue.Store

/-- The PUBREL that follows a PUBLISH in flight takes its place; the unique id of the message is
answered. Where nothing holds the packet id, the PUBREL is put at the end of the queue; where a
PUBREL holds it already, nothing changes. -/
def replace (store : Store) (id : String) (packetId : UInt16) (index : Nat) :
    Except QueueFault (Option String) × Store :=
  let queue : QueueKey := ⟨id, false⟩
  match store.bucket index with
  | .error fault => (.error fault, store)
  | .ok bucket =>
    match bucket.inFlightKey? queue packetId with
    | none =>
      let (answer, store) := store.enqueuePubrel queue packetId index bucket
      (answer.map fun () => none, store)
    | some key =>
      match bucket.entries.get? key with
      | some (.publish stored) =>
        let (answer, store) := store.commit index bucket [.release key packetId]
        (answer.map fun () => some stored.uniqueId, store)
      | _ => (.ok none, store)

/-- Remove the entry that holds a packet id, and answer the unique id of its message. With an
expected unique id, an entry with any other is left alone. -/
def remove (store : Store) (id : String) (packetId : UInt16) (expected : Option String)
    (index : Nat) : Except QueueFault (Option String) × Store :=
  let queue : QueueKey := ⟨id, false⟩
  match store.bucket index with
  | .error fault => (.error fault, store)
  | .ok bucket =>
    match bucket.inFlightKey? queue packetId with
    | none => (.ok none, store)
    | some key =>
      let uniqueId := (bucket.entries.get? key).bind Entry.uniqueId?
      if expected.isSome ∧ uniqueId ≠ expected then (.ok none, store)
      else
        let (answer, store) := store.commit index bucket [.delete key]
        (answer.map fun () => uniqueId, store)

/-- Change the first entry of a queue that fits, if there is one, and answer whether there was. -/
def changeFirst (store : Store) (queue : QueueKey) (fits : Entry → Bool)
    (change : EntryKey → Change) (index : Nat) : Except QueueFault Bool × Store :=
  match store.bucket index with
  | .error fault => (.error fault, store)
  | .ok bucket =>
    match (bucket.queueEntries queue).find? fun e => fits e.2 with
    | none => (.ok false, store)
    | some (key, _) =>
      let (answer, store) := store.commit index bucket [change key]
      (answer.map fun () => true, store)

/-- Remove the message of a shared queue that has this unique id. -/
def removeShared (store : Store) (id uniqueId : String) (index : Nat) :
    Except QueueFault Bool × Store :=
  store.changeFirst ⟨id, true⟩ (fun entry => entry.uniqueId? = some uniqueId) .delete index

/-- Whether the entry is a taken message with this unique id. -/
def isTaken (uniqueId : String) : Entry → Bool
  | .taken stored => stored.uniqueId = uniqueId
  | _ => false

/-- Give a taken message back to its shared queue, where it waits again. -/
def giveBack (store : Store) (id uniqueId : String) (index : Nat) :
    Except QueueFault Bool × Store :=
  store.changeFirst ⟨id, true⟩ (isTaken uniqueId) (.mark · false) index

/-- Delete the entries of a queue that fit. -/
def deleteEntries (store : Store) (queue : QueueKey) (fits : Entry → Bool) (index : Nat) :
    Except QueueFault Unit × Store :=
  match store.bucket index with
  | .error fault => (.error fault, store)
  | .ok bucket =>
    store.commit index bucket
      (((bucket.queueEntries queue).filter fun e => fits e.2).map fun e => .delete e.1)

/-- Delete the messages of QoS 0. -/
def removeQos0 (store : Store) (queue : QueueKey) (index : Nat) : Except QueueFault Unit × Store :=
  store.deleteEntries queue (fun entry => entry.messageClass = .qos0) index

/-- Delete all entries of a queue. -/
def clear (store : Store) (queue : QueueKey) (index : Nat) : Except QueueFault Unit × Store :=
  store.deleteEntries queue (fun _ => true) index

end DeliveryQueue.Store
