import DeliveryQueue.Store.Open
import DeliveryQueue.Store.Read
import DeliveryQueue.Store.Settle
import DeliveryQueue.Store.Upkeep

/-!
The front of a store: it finds the bucket of a queue by the queue's id and hands the request to the
writer of that bucket.
-/
namespace DeliveryQueue

/-- Writers that run requests; each bucket belongs to one of them. A pool that was stopped has
none. -/
structure WriterPool where
  threads : Nat
  /-- The writers that a request has ended by its panic. -/
  lost : List Nat
  deriving DecidableEq, Repr

namespace WriterPool

/-- At least one writer. -/
def start (threads : Nat) : WriterPool := ⟨max threads 1, []⟩

def stopped : WriterPool := ⟨0, []⟩

/-- The writer of a bucket. -/
def writerOf (pool : WriterPool) (index : Nat) : Nat := index % pool.threads

/-- Whether the writer of a bucket still runs requests. -/
def serves (pool : WriterPool) (index : Nat) : Bool :=
  pool.threads != 0 && !pool.lost.contains (pool.writerOf index)

/-- Run a request about a bucket, as long as the bucket has its writer. A request that panics takes
the writer with it. -/
def submit {α : Type} (pool : WriterPool) (index : Nat)
    (request : Store → Except QueueFault α × Store) (store : Store) :
    Except QueueFault α × WriterPool × Store :=
  if pool.serves index then
    match request store with
    | (.error .panicked, store) =>
      (.error .writerStopped, { pool with lost := pool.writerOf index :: pool.lost }, store)
    | (answer, store) => (answer, pool, store)
  else (.error .writerStopped, pool, store)

end WriterPool

structure Dispatcher where
  store : Store
  writers : WriterPool
  deriving DecidableEq, Repr

namespace Dispatcher

def ofStore (store : Store) : Dispatcher := ⟨store, .start store.settings.writerThreads⟩

def submit {α : Type} (dispatcher : Dispatcher) (index : Nat)
    (request : Store → Except QueueFault α × Store) : Except QueueFault α × Dispatcher :=
  let (answer, writers, store) := dispatcher.writers.submit index request dispatcher.store
  (answer, ⟨store, writers⟩)

def bucketFor (dispatcher : Dispatcher) (id : String) : Nat := dispatcher.store.bucketFor id

/-- A request about the queues with this id. -/
def route {α : Type} (dispatcher : Dispatcher) (id : String)
    (request : Nat → Store → Except QueueFault α × Store) : Except QueueFault α × Dispatcher :=
  dispatcher.submit (dispatcher.bucketFor id) (request (dispatcher.bucketFor id))

/-- A request that only looks. -/
def look {α : Type} (dispatcher : Dispatcher) (id : String)
    (request : Nat → Store → Except QueueFault α) : Except QueueFault α × Dispatcher :=
  dispatcher.route id fun index store => (request index store, store)

def add (dispatcher : Dispatcher) (queue : QueueKey) (message : Message) (limit : Nat)
    (policy : DiscardPolicy) : Except QueueFault Unit × Dispatcher :=
  dispatcher.route queue.id fun index => (·.add queue message limit policy index)

def readNew (dispatcher : Dispatcher) (queue : QueueKey) (pool : List UInt16)
    (byteLimit now : UInt64) : Except QueueFault (List Publish) × Dispatcher :=
  dispatcher.route queue.id fun index => (·.readNew queue pool byteLimit now index)

def readInFlight (dispatcher : Dispatcher) (queue : QueueKey) (maxCount : Nat)
    (byteLimit : UInt64) : Except QueueFault (List InFlight) × Dispatcher :=
  dispatcher.look queue.id fun index => (·.readInFlight queue maxCount byteLimit index)

def replace (dispatcher : Dispatcher) (id : String) (packetId : UInt16) :
    Except QueueFault (Option String) × Dispatcher :=
  dispatcher.route id fun index => (·.replace id packetId index)

def remove (dispatcher : Dispatcher) (id : String) (packetId : UInt16) (expected : Option String) :
    Except QueueFault (Option String) × Dispatcher :=
  dispatcher.route id fun index => (·.remove id packetId expected index)

def removeShared (dispatcher : Dispatcher) (id uniqueId : String) :
    Except QueueFault Bool × Dispatcher :=
  dispatcher.route id fun index => (·.removeShared id uniqueId index)

def giveBack (dispatcher : Dispatcher) (id uniqueId : String) :
    Except QueueFault Bool × Dispatcher :=
  dispatcher.route id fun index => (·.giveBack id uniqueId index)

def removeQos0 (dispatcher : Dispatcher) (queue : QueueKey) : Except QueueFault Unit × Dispatcher :=
  dispatcher.route queue.id fun index => (·.removeQos0 queue index)

def clear (dispatcher : Dispatcher) (queue : QueueKey) : Except QueueFault Unit × Dispatcher :=
  dispatcher.route queue.id fun index => (·.clear queue index)

def size (dispatcher : Dispatcher) (queue : QueueKey) : Except QueueFault Nat × Dispatcher :=
  dispatcher.look queue.id fun index => (·.size queue index)

def cleanUp (dispatcher : Dispatcher) (now : UInt64) (index : Nat) :
    Except QueueFault (List String) × Dispatcher :=
  dispatcher.submit index (·.cleanUp now index)

/-- Sweep buckets one after the other, whatever each of them answers. -/
def cleanUpEach (dispatcher : Dispatcher) (now : UInt64) :
    List Nat → List (Except QueueFault (List String)) × Dispatcher
  | [] => ([], dispatcher)
  | index :: indices =>
    let (answer, dispatcher) := dispatcher.cleanUp now index
    let (answers, dispatcher) := cleanUpEach dispatcher now indices
    (answer :: answers, dispatcher)

/-- Sweep every bucket. -/
def cleanUpAll (dispatcher : Dispatcher) (now : UInt64) :
    Except QueueFault (List String) × Dispatcher :=
  let (answers, dispatcher) := dispatcher.cleanUpEach now (List.range dispatcher.store.bucketCount)
  (Store.gather answers, dispatcher)

/-- One round of the periodic sweep, and whether further rounds make sense: not once the store is
closed or the writers are stopped. -/
def cleanUpRound (dispatcher : Dispatcher) (now : UInt64) : Bool × Dispatcher :=
  match dispatcher.cleanUpAll now with
  | (.error .writerStopped, dispatcher) | (.error (.storage .closed), dispatcher) =>
    (false, dispatcher)
  | (_, dispatcher) => (true, dispatcher)

/-- Stop the writers, then close the store. -/
def close (dispatcher : Dispatcher) : Except QueueFault Unit × Dispatcher :=
  let (answer, store) := dispatcher.store.close
  (answer, ⟨store, .stopped⟩)

end Dispatcher

end DeliveryQueue
