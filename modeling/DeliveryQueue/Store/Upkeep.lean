import DeliveryQueue.Store.Basic

/-!
The upkeep of a store: sweeping a bucket now and then, and closing at the end.
-/
namespace DeliveryQueue.Store

/-- The waiting entries of a bucket that have expired. -/
def staleKeys (bucket : Bucket) (now : UInt64) : List EntryKey :=
  bucket.queueKeys.flatMap fun queue =>
    ((bucket.queueEntries queue).filter fun e => e.2.isStale now).map Prod.fst

/-- The ids of the shared queues that a bucket counts. -/
def sharedIds (bucket : Bucket) : List String :=
  (bucket.queueKeys.filter QueueKey.shared).map QueueKey.id

/-- Sweep a bucket: expired messages that wait are dropped, empty queues forgotten, and a journal
with more records than the threshold compacted. Answers the shared queues that hold entries. -/
def cleanUp (store : Store) (now : UInt64) (index : Nat) :
    Except QueueFault (List String) × Store :=
  match store.bucket index with
  | .error fault => (.error fault, store)
  | .ok bucket =>
    let stale := staleKeys bucket now
    match store.commit index bucket (stale.map .delete) with
    | (.error fault, store) => (.error fault, store)
    | (.ok (), store) =>
      match store.buckets[index]? with
      | none => (.ok [], store)
      | some bucket =>
        let bucket := bucket.forgetEmptyQueues
        let store := { store with
          buckets := store.buckets.setIfInBounds index bucket
          stats.expired := store.stats.expired + .ofNat stale.length }
        if store.settings.compactionThreshold < bucket.journalRecords then
          let (answer, bucket, disk) := bucket.compact store.disk
          let store := { store with buckets := store.buckets.setIfInBounds index bucket, disk }
          (match answer with
            | .error fault => .error (.storage fault)
            | .ok () => .ok (sharedIds bucket), store)
        else (.ok (sharedIds bucket), store)

/-- Sweep buckets one after the other, whatever each of them answers. -/
def cleanUpEach (store : Store) (now : UInt64) :
    List Nat → List (Except QueueFault (List String)) × Store
  | [] => ([], store)
  | index :: indices =>
    let (answer, store) := store.cleanUp now index
    let (answers, store) := cleanUpEach store now indices
    (answer :: answers, store)

/-- Names in ascending order, each once. -/
def union (names : List (List String)) : List String :=
  (Table.ofList (names.flatten.map fun name => (name, ()))).keys

/-- The shared queues of all sweeps, or the first failure in the order of the buckets. -/
def gather (answers : List (Except QueueFault (List String))) : Except QueueFault (List String) :=
  union <$> answers.mapM id

/-- Sweep every bucket, and answer the shared queues that hold entries. -/
def cleanUpAll (store : Store) (now : UInt64) : Except QueueFault (List String) × Store :=
  let (answers, store) := store.cleanUpEach now (List.range store.bucketCount)
  (gather answers, store)

/-- Flush a bucket, and try again as often as allowed. -/
def flush (bucket : Bucket) (disk : Disk) : Nat → Except StorageFault Unit × Bucket × Disk
  | 0 => bucket.sync disk
  | retries + 1 =>
    match bucket.sync disk with
    | (.ok (), bucket, disk) => (.ok (), bucket, disk)
    | (.error _, bucket, disk) => flush bucket disk retries

/-- Flush buckets one after the other. A failure does not keep the others from being flushed; the
last one is answered. -/
def flushAll (retries : Nat) (disk : Disk) :
    List Bucket → Except StorageFault Unit × List Bucket × Disk
  | [] => (.ok (), [], disk)
  | bucket :: buckets =>
    let (answer, bucket, disk) := flush bucket disk retries
    let (rest, buckets, disk) := flushAll retries disk buckets
    (match rest with
      | .ok () => answer
      | .error fault => .error fault, bucket :: buckets, disk)

/-- Flush every journal and refuse all operations from then on. Closing again does nothing. -/
def close (store : Store) : Except QueueFault Unit × Store :=
  if store.closed then (.ok (), store)
  else
    let (answer, buckets, disk) :=
      flushAll store.settings.closeRetries store.disk store.buckets.toList
    (answer.mapError .storage, { store with closed := true, buckets := buckets.toArray, disk })

end DeliveryQueue.Store
