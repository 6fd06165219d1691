import DeliveryQueue.Store.Basic

/-!
Adding messages to queues. A message that finds its queue at the limit is turned away or makes the
oldest waiting one give way; one of QoS 0 may push the oldest QoS 0 messages of the whole store over
the budget.
-/
namespace DeliveryQueue.Store

/-- The oldest QoS 0 entry of some buckets, with the index of its bucket; `index` is that of the
first. -/
def oldestQos0From (index : Nat) : List Bucket → Option (Nat × EntryKey)
  | [] => none
  | bucket :: buckets =>
    match bucket.oldestQos0?, oldestQos0From (index + 1) buckets with
    | none, later => later
    | some key, none => some (index, key)
    | some key, some (other, older) =>
      if older.sequence < key.sequence then some (other, older) else some (index, key)

def oldestQos0? (store : Store) : Option (Nat × EntryKey) := oldestQos0From 0 store.buckets.toList

/-- How many entries weigh against the budget. -/
def qos0Count (store : Store) : Nat :=
  store.buckets.foldr (fun bucket count => bucket.qos0ByAge.size + count) 0

/-- Drop the oldest QoS 0 entries until the budget holds. A journal that fails ends the sweep. Each
round takes one entry out, so as much fuel as there are entries is enough. -/
def evictQos0 : Nat → Store → Store
  | 0, store => store
  | fuel + 1, store =>
    if store.budget.exceeded then
      match store.oldestQos0? with
      | none => store
      | some (index, key) =>
        match store.buckets[index]? with
        | none => store
        | some bucket =>
          match (bucket.entries.get? key).bind Entry.message? with
          | none => store
          | some message =>
            let used := store.budget.used
            match store.commit index bucket [.delete key] with
            | (.error _, store) =>
              { store with stats.qos0EvictionFailures := store.stats.qos0EvictionFailures + 1 }
            | (.ok (), store) =>
              evictQos0 fuel
                ({ store with stats.qos0MemoryDropped := store.stats.qos0MemoryDropped + 1 }.notify
                  (.qos0Memory key.queue.shared key.queue.id message.topic message.qos used
                    store.budget.limit))
    else store

def enforceBudget (store : Store) : Store := store.evictQos0 store.qos0Count

/-- Turn a message away: it is counted, reported, and its payload released. -/
def turnAway (store : Store) (queue : QueueKey) (message : Publish) : Store :=
  (store.discard queue.id message.topic message.qos).release message.payload

/-- Put a message at the end of its queue, in the place of an older one if one has to go. -/
def enqueue (store : Store) (queue : QueueKey) (message : Publish) (evicted : Option EntryKey)
    (index : Nat) (bucket : Bucket) : Except QueueFault Unit × Store :=
  let key : EntryKey := ⟨queue, store.sequence.next⟩
  let store := { store with sequence := store.sequence.advance }
  let gone := evicted.bind fun old => (bucket.entries.get? old).bind Entry.message?
  let changes := (evicted.map Change.delete).toList ++
    [.insert key (.publish (.ofPublish message))]
  match store.commit index bucket changes with
  | (.error fault, store) => (.error fault, store)
  | (.ok (), store) =>
    let store := match gone with
      | some old => store.discard queue.id old.topic old.qos
      | none => store
    (.ok (), if message.qos = .atMostOnce then store.enforceBudget else store)

/-- Add a PUBLISH. Its payload reference passes to the store in any case. -/
def addPublish (store : Store) (queue : QueueKey) (message : Publish) (limit : Nat)
    (policy : DiscardPolicy) (index : Nat) : Except QueueFault Unit × Store :=
  match store.bucket index with
  | .error fault => (.error fault, store.release message.payload)
  | .ok bucket =>
    let messageClass := MessageClass.of message.qos
    match Admission.decide (bucket.classSize queue messageClass) limit policy with
    | .accept => store.enqueue queue message none index bucket
    | .dropIncoming => (.ok (), store.turnAway queue message)
    | .evictOldest =>
      match bucket.oldestEvictable? queue messageClass with
      | some oldest => store.enqueue queue message (some oldest) index bucket
      | none => (.ok (), store.turnAway queue message)

/-- Put a PUBREL at the end of a queue. -/
def enqueuePubrel (store : Store) (queue : QueueKey) (packetId : UInt16) (index : Nat)
    (bucket : Bucket) : Except QueueFault Unit × Store :=
  let key : EntryKey := ⟨queue, store.sequence.next⟩
  { store with sequence := store.sequence.advance }.commit index bucket
    [.insert key (.pubrel packetId)]

/-- Add the PUBREL of a handshake that is under way; one whose id is in flight is not needed. -/
def addPubrel (store : Store) (queue : QueueKey) (packetId : UInt16) (index : Nat) :
    Except QueueFault Unit × Store :=
  match store.bucket index with
  | .error fault => (.error fault, store)
  | .ok bucket =>
    match bucket.inFlightKey? queue packetId with
    | some _ => (.ok (), store)
    | none => store.enqueuePubrel queue packetId index bucket

def add (store : Store) (queue : QueueKey) (message : Message) (limit : Nat)
    (policy : DiscardPolicy) (index : Nat) : Except QueueFault Unit × Store :=
  match message with
  | .publish message => store.addPublish queue message limit policy index
  | .pubrel packetId => store.addPubrel queue packetId index

end DeliveryQueue.Store
