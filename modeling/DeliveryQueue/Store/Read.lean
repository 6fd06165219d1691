import DeliveryQueue.Store.Basic

/-!
Handing messages out: waiting ones for the first time, those in flight again.
-/
namespace DeliveryQueue.Store

/-- What is handed out in one go. -/
structure Delivery where
  changes : List Change
  messages : List Publish
  expired : Nat
  /-- Whether the reading panics before it comes to its end. -/
  panics : Bool
  deriving DecidableEq, Repr

namespace Delivery

def nothing : Delivery := ⟨[], [], 0, false⟩

def panic : Delivery := { nothing with panics := true }

/-- The delivery with an expired message in front. -/
def expire (delivery : Delivery) (key : EntryKey) : Delivery :=
  { delivery with
    changes := .delete key :: delivery.changes
    expired := delivery.expired + 1 }

/-- The delivery with a message in front. -/
def hand (delivery : Delivery) (change : Change) (message : Publish) : Delivery :=
  { delivery with
    changes := change :: delivery.changes
    messages := message :: delivery.messages }

end Delivery

/-- What the reader of a queue still may take. -/
structure Allowance where
  /-- How many messages. -/
  count : Nat
  /-- The packet ids for messages of QoS 1 and 2. -/
  ids : List UInt16
  /-- The bytes taken so far; absent before the first message, which is never too large. -/
  bytes : Option UInt64
  byteLimit : UInt64
  overflow : Overflow
  deriving DecidableEq, Repr

namespace Allowance

/-- Whether the sum of the bytes with one more message panics. -/
def panics (allowance : Allowance) (size : UInt64) : Bool :=
  allowance.overflow = .panics &&
    allowance.bytes.any fun bytes => UInt64.size ≤ bytes.toNat + size.toNat

/-- Whether one more message of this size may be taken. -/
def affords (allowance : Allowance) (size : UInt64) : Bool :=
  match allowance.bytes with
  | none => true
  | some bytes => bytes + size ≤ allowance.byteLimit

/-- The allowance after a message of this size. -/
def spend (allowance : Allowance) (size : UInt64) : Allowance :=
  { allowance with
    count := allowance.count - 1
    bytes := some (allowance.bytes.getD 0 + size) }

end Allowance

/-- Go through a queue from its oldest entry on. Waiting messages are handed out, or dropped if they
have expired; the first that cannot be afforded ends the reading. -/
def deliver (shared : Bool) (now : UInt64) : Allowance → List (EntryKey × Entry) → Delivery
  | _, [] => .nothing
  | allowance, (key, entry) :: rest =>
    if allowance.count = 0 then .nothing
    else
      match entry with
      | .publish stored =>
        if stored.packetId.isSome then deliver shared now allowance rest
        else if stored.isExpired now then (deliver shared now allowance rest).expire key
        else if allowance.panics stored.size then .panic
        else if !allowance.affords stored.size then .nothing
        else
          let left := allowance.spend stored.size
          if stored.qos = .atMostOnce then
            (deliver shared now left rest).hand (.delete key) (stored.toPublish noPacketId)
          else if shared then
            (deliver shared now left rest).hand (.mark key true) (stored.toPublish noPacketId)
          else
            match allowance.ids with
            | [] => .nothing
            | id :: ids =>
              (deliver shared now { left with ids } rest).hand (.assign key (some id))
                (stored.toPublish id)
      | _ => deliver shared now allowance rest

/-- Hand out waiting messages, at most one for each id of the pool. Those of QoS 0 leave the queue;
those of QoS 1 and 2 go in flight under the free ids of the pool, or, in a shared queue, are marked
as taken. -/
def readNew (store : Store) (queue : QueueKey) (pool : List UInt16) (byteLimit now : UInt64)
    (index : Nat) : Except QueueFault (List Publish) × Store :=
  match store.bucket index with
  | .error fault => (.error fault, store)
  | .ok bucket =>
    match bucket.counts? queue with
    | none => (.ok [], store)
    | some counts =>
      let allowance :=
        ⟨pool.length, counts.packetIds.free pool, none, byteLimit, store.settings.overflow⟩
      let delivery := deliver queue.shared now allowance (bucket.queueEntries queue)
      if delivery.panics then (.error .panicked, store)
      else
        match store.commit index bucket delivery.changes with
        | (.error fault, store) => (.error fault, store)
        | (.ok (), store) =>
          (.ok delivery.messages,
            { store with stats.expired := store.stats.expired + .ofNat delivery.expired })

/-- The first entries that can be afforded, as sent again; none of them if the reading panics. -/
def resend : Allowance → List Entry → Option (List InFlight)
  | _, [] => some []
  | allowance, entry :: rest =>
    if allowance.count = 0 then some []
    else if allowance.panics entry.size then none
    else if allowance.affords entry.size = false then some []
    else
      match entry.inFlight? with
      | some message => (message :: ·) <$> resend (allowance.spend entry.size) rest
      | none => resend allowance rest

/-- The entries of a queue that are in flight: PUBRELs first, then messages, each in the order of
their sequence numbers. -/
def inFlightEntries (bucket : Bucket) (queue : QueueKey) : List Entry :=
  let entries := (bucket.queueEntries queue).map Prod.snd
  entries.filter Entry.isPubrel ++ entries.filter fun entry => !entry.isPubrel && !entry.isNew

/-- Messages in flight, to be sent again. Nothing changes. -/
def readInFlight (store : Store) (queue : QueueKey) (maxCount : Nat) (byteLimit : UInt64)
    (index : Nat) : Except QueueFault (List InFlight) :=
  match store.bucket index with
  | .error fault => .error fault
  | .ok bucket =>
    match resend ⟨maxCount, [], none, byteLimit, store.settings.overflow⟩
        (inFlightEntries bucket queue) with
    | some messages => .ok messages
    | none => .error .panicked

end DeliveryQueue.Store
