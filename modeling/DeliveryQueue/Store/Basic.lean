import DeliveryQueue.Bucket
import DeliveryQueue.DataDirectory
import DeliveryQueue.Notice
import DeliveryQueue.Sequence
import DeliveryQueue.Settings

/-!
A store: buckets of queues that share one sequence of numbers and one QoS 0 budget. Every operation
on a queue is one transaction on one bucket. What an operation owes to the outside, payload
references to release and notices to send, it puts into the outbox, with the changes it journaled.
-/
namespace DeliveryQueue

/-- Messages that the store dropped of its own accord, and budget sweeps that failed. The counts are
64-bit words that wrap around. -/
structure Stats where
  expired : UInt64
  discarded : UInt64
  qos0MemoryDropped : UInt64
  qos0EvictionFailures : UInt64
  deriving DecidableEq, Repr

def Stats.zero : Stats := ⟨0, 0, 0, 0⟩

/-- Why an operation gives no result. -/
inductive QueueFault
  | storage (fault : StorageFault)
  | invalidBucket (bucket bucketCount : Nat)
  | settings (fault : SettingsFault)
  | writerStopped
  /-- Not an answer: the call panics over a sum that does not fit into a word. -/
  | panicked
  deriving DecidableEq, Repr

def QueueFault.message : QueueFault → String
  | storage fault => "storage failure: " ++ fault.message
  | invalidBucket bucket bucketCount =>
    "bucket " ++ toString bucket ++ " out of range (bucket count " ++ toString bucketCount ++ ")"
  | settings fault => "invalid configuration: " ++ fault.message
  | writerStopped => "queue writer stopped"
  | panicked => "attempt to add with overflow"

/-- Releases, notices and journaled changes in the order in which they came up. -/
structure Outbox where
  released : List UInt64
  notices : List Notice
  committed : List Change
  deriving DecidableEq, Repr

def Outbox.empty : Outbox := ⟨[], [], []⟩

structure Store where
  settings : Settings
  buckets : Array Bucket
  sequence : Sequence
  budget : Budget
  stats : Stats
  closed : Bool
  disk : Disk
  outbox : Outbox
  deriving DecidableEq, Repr

namespace Store

def bucketCount (store : Store) : Nat := store.buckets.size

/-- The bucket of the queues with this id. -/
def bucketFor (store : Store) (id : String) : Nat := bucketIndex id store.bucketCount

/-- The bucket at an index, as long as the store is open. -/
def bucket (store : Store) (index : Nat) : Except QueueFault Bucket :=
  if store.closed then .error (.storage .closed)
  else
    match store.buckets[index]? with
    | some bucket => .ok bucket
    | none => .error (.invalidBucket index store.bucketCount)

def release (store : Store) (payload : UInt64) : Store :=
  { store with outbox.released := store.outbox.released ++ [payload] }

/-- Release the payloads of entries that are gone. -/
def releaseEntries (store : Store) (entries : List Entry) : Store :=
  { store with outbox.released := store.outbox.released ++ entries.filterMap Entry.payload? }

/-- Take down changes that went into a journal. -/
def record (store : Store) (changes : List Change) : Store :=
  { store with outbox.committed := store.outbox.committed ++ changes }

def notify (store : Store) (notice : Notice) : Store :=
  { store with outbox.notices := store.outbox.notices ++ [notice] }

/-- Count and report a message that a full queue gave up. -/
def discard (store : Store) (id topic : String) (qos : Qos) : Store :=
  { store with stats.discarded := store.stats.discarded + 1 }.notify (.queueFull id topic qos)

/-- Commit changes to the bucket at `index`, and release the payloads of the entries that leave it,
or, if the commit fails, of those that would have entered. -/
def commit (store : Store) (index : Nat) (bucket : Bucket) (changes : List Change) :
    Except QueueFault Unit × Store :=
  let done := bucket.commit store.budget store.disk changes
  let store := { store with
    buckets := store.buckets.setIfInBounds index done.bucket
    budget := done.budget
    disk := done.disk }
  match done.answer with
  | .ok displaced => (.ok (), (store.releaseEntries displaced).record changes)
  | .error rejection => (.error (.storage rejection.fault), store.releaseEntries rejection.entries)

/-- What a bucket holds, for reports. -/
structure BucketSummary where
  index : Nat
  queues : Nat
  entries : Nat
  journalRecords : Nat
  deriving DecidableEq, Repr

def summary (store : Store) (index : Nat) : Except QueueFault BucketSummary :=
  match store.bucket index with
  | .error fault => .error fault
  | .ok bucket => .ok ⟨index, bucket.queueCount, bucket.entryCount, bucket.journalRecords⟩

/-- How many entries a queue holds. -/
def size (store : Store) (queue : QueueKey) (index : Nat) : Except QueueFault Nat :=
  match store.bucket index with
  | .error fault => .error fault
  | .ok bucket => .ok (bucket.size queue)

end Store

end DeliveryQueue
