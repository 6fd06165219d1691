import DeliveryQueue.Budget
import DeliveryQueue.Journal.Basic
import DeliveryQueue.PacketIds

/-!
A bucket holds the entries of the queues that share its index. It journals every batch of changes
before it applies the batch, so its journal replays to its entries. Beside the entries it keeps
counts for each queue and an index of the QoS 0 entries by age; both could be computed from the
entries.
-/
namespace DeliveryQueue

/-- What is counted for one queue. -/
structure QueueCounts where
  qos0 : Nat
  qos12 : Nat
  packetIds : PacketIds
  deriving DecidableEq, Repr

namespace QueueCounts

def zero : QueueCounts := ⟨0, 0, PacketIds.empty⟩

def size (counts : QueueCounts) : Nat := counts.qos0 + counts.qos12

def ofClass (counts : QueueCounts) : MessageClass → Nat
  | .qos0 => counts.qos0
  | .qos12 => counts.qos12

/-- The counts with one entry more. -/
def enter (counts : QueueCounts) (sequence : UInt64) (entry : Entry) : QueueCounts :=
  let packetIds := match entry.packetId? with
    | some id => counts.packetIds.occupy id sequence
    | none => counts.packetIds
  match entry.messageClass with
  | .qos0 => { counts with qos0 := counts.qos0 + 1, packetIds }
  | .qos12 => { counts with qos12 := counts.qos12 + 1, packetIds }

/-- The counts with one entry less. -/
def leave (counts : QueueCounts) (sequence : UInt64) (entry : Entry) : QueueCounts :=
  let packetIds := match entry.packetId? with
    | some id => counts.packetIds.vacate id sequence
    | none => counts.packetIds
  match entry.messageClass with
  | .qos0 => { counts with qos0 := counts.qos0 - 1, packetIds }
  | .qos12 => { counts with qos12 := counts.qos12 - 1, packetIds }

end QueueCounts

structure Bucket where
  index : Nat
  entries : Table EntryKey Entry
  queues : Table QueueKey QueueCounts
  /-- The QoS 0 entries that weigh against the budget, oldest first. -/
  qos0ByAge : Table AgeKey Unit
  journal : Journal
  deriving DecidableEq, Repr

namespace Bucket

def ofJournal (index : Nat) (journal : Journal) : Bucket :=
  ⟨index, Table.empty, Table.empty, Table.empty, journal⟩

/-! Changing entries. Each step takes the budget along and returns the entry that left. -/

/-- Take an entry out. -/
def detach (bucket : Bucket) (budget : Budget) (key : EntryKey) : Bucket × Budget × Option Entry :=
  match bucket.entries.get? key with
  | none => (bucket, budget, none)
  | some entry =>
    let queues := match bucket.queues.get? key.queue with
      | some counts => bucket.queues.insert key.queue (counts.leave key.sequence entry)
      | none => bucket.queues
    let bucket := { bucket with entries := bucket.entries.erase key, queues }
    match entry.qos0Bytes? with
    | some bytes =>
      ({ bucket with qos0ByAge := bucket.qos0ByAge.erase key.age }, budget.refund bytes, some entry)
    | none => (bucket, budget, some entry)

/-- Put an entry in a place that is free. -/
def occupy (bucket : Bucket) (budget : Budget) (key : EntryKey) (entry : Entry) : Bucket × Budget :=
  let counts := (bucket.queues.get? key.queue).getD .zero
  let bucket := { bucket with
    entries := bucket.entries.insert key entry
    queues := bucket.queues.insert key.queue (counts.enter key.sequence entry) }
  match entry.qos0Bytes? with
  | some bytes =>
    ({ bucket with qos0ByAge := bucket.qos0ByAge.insert key.age () }, budget.charge bytes)
  | none => (bucket, budget)

/-- Put an entry in, in the place of one that was there. -/
def attach (bucket : Bucket) (budget : Budget) (key : EntryKey) (entry : Entry) :
    Bucket × Budget × Option Entry :=
  let (bucket, budget, previous) := bucket.detach budget key
  let (bucket, budget) := bucket.occupy budget key entry
  (bucket, budget, previous)

/-- Put the changed entry back in the place of the entry. Where there is none, nothing happens. -/
def modify (bucket : Bucket) (budget : Budget) (key : EntryKey) (change : Entry → Entry) :
    Bucket × Budget × Option Entry :=
  match bucket.detach budget key with
  | (bucket, budget, none) => (bucket, budget, none)
  | (bucket, budget, some entry) =>
    let (bucket, budget) := bucket.occupy budget key (change entry)
    (bucket, budget, none)

def apply (bucket : Bucket) (budget : Budget) : Change → Bucket × Budget × Option Entry
  | .insert key entry => bucket.attach budget key entry
  | .delete key => bucket.detach budget key
  | .assign key packetId => bucket.modify budget key (Entry.assigned packetId)
  | .mark key taken => bucket.modify budget key (Entry.marked taken)
  | .release key packetId => bucket.attach budget key (.pubrel packetId)

/-- Apply changes one after the other and collect the entries that left. -/
def applyAll (bucket : Bucket) (budget : Budget) : List Change → Bucket × Budget × List Entry
  | [] => (bucket, budget, [])
  | change :: changes =>
    let (bucket, budget, displaced) := bucket.apply budget change
    let (bucket, budget, rest) := applyAll bucket budget changes
    (bucket, budget, displaced.toList ++ rest)

/-! The journal -/

/-- What a call answers, and what it leaves behind. -/
structure Outcome (α : Type) where
  answer : α
  bucket : Bucket
  budget : Budget
  disk : Disk

/-- Why a batch was not committed, and the entries that it would have brought in. -/
structure Rejection where
  fault : StorageFault
  entries : List Entry
  deriving DecidableEq, Repr

/-- Journal a batch, then apply it. If it cannot be journaled, nothing is applied. A batch without
changes is not written. -/
def commit (bucket : Bucket) (budget : Budget) (disk : Disk) (changes : List Change) :
    Outcome (Except Rejection (List Entry)) :=
  if changes.isEmpty then ⟨.ok [], bucket, budget, disk⟩
  else
    let rejected := changes.filterMap Change.inserted?
    match Batch.encode changes with
    | .error fault =>
      ⟨.error ⟨.corruption (.batch fault), rejected⟩, bucket, budget, disk⟩
    | .ok batch =>
      let written := bucket.journal.append disk batch
      let bucket := { bucket with journal := written.journal }
      match written.answer with
      | .error fault => ⟨.error ⟨fault, rejected⟩, bucket, budget, written.disk⟩
      | .ok () =>
        let (bucket, budget, displaced) := bucket.applyAll budget changes
        ⟨.ok displaced, bucket, budget, written.disk⟩

/-- The larger of a number, if there is one, and another. -/
def highest (a : Option UInt64) (b : UInt64) : Option UInt64 := some (a.elim b (max · b))

/-- Apply the changes of batches up to the first that cannot be read. References to payloads that
the changes displace were settled when they were made. -/
def replayBatches (bucket : Bucket) (budget : Budget) (top : Option UInt64) :
    List Bytes → Except StorageFault (Option UInt64) × Bucket × Budget
  | [] => (.ok top, bucket, budget)
  | batch :: batches =>
    match Batch.decode batch with
    | .error fault => (.error (.corruption (.batch fault)), bucket, budget)
    | .ok changes =>
      let (bucket, budget, _) := bucket.applyAll budget changes
      let top := changes.foldl (fun top change => highest top change.key.sequence) top
      replayBatches bucket budget top batches

/-- Rebuild the entries from the journal. Answers the highest sequence number met. -/
def recover (bucket : Bucket) (budget : Budget) (disk : Disk) :
    Outcome (Except StorageFault (Option UInt64)) :=
  let read := bucket.journal.replay disk
  let bucket := { bucket with journal := read.journal }
  match read.answer with
  | .error fault => ⟨.error fault, bucket, budget, read.disk⟩
  | .ok batches =>
    let (answer, bucket, budget) := bucket.replayBatches budget none batches
    ⟨answer, bucket, budget, read.disk⟩

/-- Put one snapshot of the entries in the place of the journal. -/
def compact (bucket : Bucket) (disk : Disk) : Except StorageFault Unit × Bucket × Disk :=
  match Batch.encodeSnapshot bucket.entries.bindings with
  | .error fault => (.error (.corruption (.batch fault)), bucket, disk)
  | .ok snapshot =>
    let written := bucket.journal.replaceAll disk snapshot
    (written.answer, { bucket with journal := written.journal }, written.disk)

def sync (bucket : Bucket) (disk : Disk) : Except StorageFault Unit × Bucket × Disk :=
  let flushed := bucket.journal.sync disk
  (flushed.answer, { bucket with journal := flushed.journal }, flushed.disk)

/-! What a bucket knows -/

def counts? (bucket : Bucket) (queue : QueueKey) : Option QueueCounts := bucket.queues.get? queue

def size (bucket : Bucket) (queue : QueueKey) : Nat :=
  ((bucket.counts? queue).map QueueCounts.size).getD 0

def classSize (bucket : Bucket) (queue : QueueKey) (messageClass : MessageClass) : Nat :=
  ((bucket.counts? queue).map (·.ofClass messageClass)).getD 0

/-- The entries of one queue, in the order of their sequence numbers. -/
def queueEntries (bucket : Bucket) (queue : QueueKey) : List (EntryKey × Entry) :=
  bucket.entries.bindings.filter fun e => e.1.queue = queue

/-- The place of the entry that holds a packet id. -/
def inFlightKey? (bucket : Bucket) (queue : QueueKey) (packetId : UInt16) : Option EntryKey :=
  (bucket.counts? queue).bind fun counts =>
    (counts.packetIds.holder? packetId).map fun sequence => ⟨queue, sequence⟩

/-- The oldest waiting entry of a class. -/
def oldestEvictable? (bucket : Bucket) (queue : QueueKey) (messageClass : MessageClass) :
    Option EntryKey :=
  ((bucket.queueEntries queue).find? fun e =>
    e.2.isNew && decide (e.2.messageClass = messageClass)).map Prod.fst

/-- The oldest QoS 0 entry. -/
def oldestQos0? (bucket : Bucket) : Option EntryKey :=
  bucket.qos0ByAge.first?.map fun e => e.1.entryKey

def queueKeys (bucket : Bucket) : List QueueKey := bucket.queues.keys

/-- Forget the counts of queues without entries. -/
def forgetEmptyQueues (bucket : Bucket) : Bucket :=
  { bucket with queues := bucket.queues.filter fun _ counts => counts.size != 0 }

def queueCount (bucket : Bucket) : Nat := bucket.queues.size

def entryCount (bucket : Bucket) : Nat := bucket.entries.size

def journalRecords (bucket : Bucket) : Nat := bucket.journal.recordCount

end Bucket

end DeliveryQueue
