import DeliveryQueue.Payloads
import DeliveryQueue.Proofs.Reopening

/-!
A store in its world: callers that ask it and that count payload references, journals that begin to
fail or to work again, and restarts over the same journals. A world takes down what it saw.
-/
namespace DeliveryQueue

inductive Request
  | add (queue : QueueKey) (message : Message) (limit : Nat) (policy : DiscardPolicy) (index : Nat)
  | readNew (queue : QueueKey) (pool : List UInt16) (byteLimit now : UInt64) (index : Nat)
  | readInFlight (queue : QueueKey) (maxCount : Nat) (byteLimit : UInt64) (index : Nat)
  | replace (id : String) (packetId : UInt16) (index : Nat)
  | remove (id : String) (packetId : UInt16) (expected : Option String) (index : Nat)
  | removeShared (id uniqueId : String) (index : Nat)
  | giveBack (id uniqueId : String) (index : Nat)
  | removeQos0 (queue : QueueKey) (index : Nat)
  | clear (queue : QueueKey) (index : Nat)
  | size (queue : QueueKey) (index : Nat)
  | cleanUp (now : UInt64) (index : Nat)
  | close
  deriving DecidableEq, Repr

/-- The PUBLISH that a request hands to the store. -/
def Request.offer? : Request → Option Offer
  | add queue (.publish message) _ _ index => some ⟨queue, message, index⟩
  | _ => none

/-- Whether a request may put an entry at the end of a queue. -/
def Request.inserts : Request → Bool
  | add .. | replace .. => true
  | _ => false

inductive Answer
  | done (result : Except QueueFault Unit)
  | messages (result : Except QueueFault (List Publish))
  | inFlight (result : Except QueueFault (List InFlight))
  | uniqueId (result : Except QueueFault (Option String))
  | found (result : Except QueueFault Bool)
  | count (result : Except QueueFault Nat)
  | names (result : Except QueueFault (List String))
  deriving Repr

namespace Store

def serve (store : Store) : Request → Answer × Store
  | .add queue message limit policy index =>
    (store.add queue message limit policy index).map .done id
  | .readNew queue pool byteLimit now index =>
    (store.readNew queue pool byteLimit now index).map .messages id
  | .readInFlight queue maxCount byteLimit index =>
    (.inFlight (store.readInFlight queue maxCount byteLimit index), store)
  | .replace client packetId index => (store.replace client packetId index).map .uniqueId id
  | .remove client packetId expected index =>
    (store.remove client packetId expected index).map .uniqueId id
  | .removeShared group uniqueId index =>
    (store.removeShared group uniqueId index).map .found id
  | .giveBack group uniqueId index => (store.giveBack group uniqueId index).map .found id
  | .removeQos0 queue index => (store.removeQos0 queue index).map .done id
  | .clear queue index => (store.clear queue index).map .done id
  | .size queue index => (.count (store.size queue index), store)
  | .cleanUp now index => (store.cleanUp now index).map .names id
  | .close => store.close.map .done id

/-- A request that inserts nothing is quiet. -/
theorem serve_edited {store : Store} (kept : store.Kept) {request : Request}
    (only : request.inserts = false) : store.Edited (store.serve request).2 := by
  cases request with
  | add | replace => cases only
  | readNew queue pool byteLimit now index =>
    exact readNew_edited kept queue pool byteLimit now index
  | readInFlight | size => exact .stay store
  | remove id packetId expected index => exact remove_edited kept id packetId expected index
  | removeShared id uniqueId index => exact removeShared_edited store id uniqueId index
  | giveBack id uniqueId index => exact giveBack_edited store id uniqueId index
  | removeQos0 queue index =>
    exact deleteEntries_edited store queue (fun entry => entry.messageClass = .qos0) index
  | clear queue index => exact deleteEntries_edited store queue (fun _ => true) index
  | cleanUp now index => exact cleanUp_edited kept now index
  | close => exact close_edited store

/-- Every request takes in what it offers, and is quiet otherwise. -/
theorem serve_took {store : Store} (kept : store.Kept) (request : Request) :
    Took store request.offer? (store.serve request).2 := by
  cases request with
  | add queue message limit policy index =>
    cases message with
    | publish message => exact addPublish_took store queue message limit policy index
    | pubrel id => exact addPubrel_took kept queue id index
  | replace id packetId index => exact replace_took kept id packetId index
  | _ => exact (serve_edited kept rfl).took

end Store

/-- What callers do with the payload store. -/
inductive PayloadCall
  | add (bytes : Bytes)
  | retain (id : UInt64)
  | release (id : UInt64)
  | sweep
  deriving DecidableEq, Repr

def Payloads.serve (payloads : Payloads) : PayloadCall → Payloads
  | .add bytes => payloads.add bytes
  | .retain id => payloads.retain id
  | .release id => payloads.release id
  | .sweep => payloads.sweep

/-- How a journal in memory behaves from now on. -/
structure Mood where
  capacity : Option Nat
  failAppends : Bool
  failReplacements : Bool
  failSyncs : Nat
  deriving DecidableEq, Repr

def Journal.told (mood : Mood) : Journal → Journal
  | memory log => memory { log with
      capacity := mood.capacity
      failAppends := mood.failAppends
      failReplacements := mood.failReplacements
      failSyncs := mood.failSyncs }
  | file log => file log

theorem Journal.held?_told (mood : Mood) (journal : Journal) :
    (journal.told mood).held? = journal.held? := by
  cases journal <;> rfl

inductive Event
  | ask (request : Request)
  | call (call : PayloadCall)
  | tell (index : Nat) (mood : Mood)
  /-- Drop the store and open another over the same journals. -/
  | restart (settings : Settings)
  deriving DecidableEq, Repr

/-- The PUBLISH that an event hands to the store. -/
def Event.offer? : Event → Option Offer
  | ask request => request.offer?
  | _ => none

structure World where
  store : Store
  payloads : Payloads
  /-- All that stores put into their outboxes. -/
  record : Outbox
  history : List (Request × Answer)
  /-- How many sequence numbers were drawn. -/
  drawn : Nat
  /-- By how much callers themselves raised the references of each payload. -/
  counted : UInt64 → Int

def Outbox.append (first second : Outbox) : Outbox :=
  ⟨first.released ++ second.released, first.notices ++ second.notices,
    first.committed ++ second.committed⟩

/-- The journals of a store, in the order of its buckets. -/
def Store.journals (store : Store) : List Journal := store.buckets.toList.map Bucket.journal

namespace World

def start (store : Store) (payloads : Payloads) : World where
  store := store
  payloads := payloads
  record := .empty
  history := []
  drawn := 0
  counted := fun _ => 0

/-- Serve a request, and release what it put into the outbox. -/
def ask (world : World) (request : Request) : World :=
  let served := world.store.serve request
  { world with
    store := { served.2 with outbox := .empty }
    payloads := served.2.outbox.released.foldl Payloads.release world.payloads
    record := world.record.append served.2.outbox
    history := world.history ++ [(request, served.1)]
    drawn := world.drawn + (served.2.sequence.next - world.store.sequence.next).toNat }

def call (world : World) (call : PayloadCall) : World :=
  let payloads := world.payloads.serve call
  { world with
    payloads
    counted := fun id =>
      world.counted id + ((payloads.references id : Int) - world.payloads.references id) }

def tell (world : World) (index : Nat) (mood : Mood) : World :=
  match world.store.buckets[index]? with
  | none => world
  | some bucket =>
    let told := { bucket with journal := bucket.journal.told mood }
    { world with store.buckets := world.store.buckets.setIfInBounds index told }

/-- Drop the store, and open another over its journals. If that fails, nothing is open. -/
def restart (world : World) (settings : Settings) : World :=
  match Store.ofJournals settings world.store.journals world.store.disk with
  | .error _ => { world with store.closed := true }
  | .ok store => { world with store }

def step (world : World) : Event → World
  | .ask request => world.ask request
  | .call call => world.call call
  | .tell index mood => world.tell index mood
  | .restart settings => world.restart settings

def run (world : World) (events : List Event) : World := events.foldl step world

/-- What was handed to the store, in the order of the requests. -/
def offers (world : World) : List Offer := world.history.filterMap fun h => h.1.offer?

end World

namespace Store

variable {store : Store}

/-- Opening over the journals of kept buckets fails or rebuilds them one after the other. -/
theorem reopened_of_ofJournals {settings : Settings} {olds : List Bucket} {disk : Disk}
    (kept : ∀ old ∈ olds, old.Kept)
    (opened : ofJournals settings (olds.map Bucket.journal) disk = .ok store) :
    ∃ settings, Reopened (blank settings disk) olds store := by
  unfold ofJournals at opened
  dsimp only at opened
  split at opened
  · cases opened
  · exact ⟨_, reopened_of_foldlM kept opened⟩

theorem blank_kept (settings : Settings) (disk : Disk) : (blank settings disk).Kept := by
  intro index bucket found
  cases found

/-- A bucket over a fresh journal. -/
def fresh : Bucket := Bucket.ofJournal 0 (.memory .empty)

theorem fresh_kept : fresh.Kept :=
  ⟨Bucket.agrees_ofJournal 0 _, Sound.empty, [], rfl, Recalls.nil⟩

theorem reopened_of_inMemory {settings : Settings} {disk : Disk}
    (opened : inMemory settings disk = .ok store) :
    ∃ used, Reopened (blank used disk) (List.replicate settings.bucketCount fresh) store := by
  have journals : List.replicate settings.bucketCount (Journal.memory .empty) =
      (List.replicate settings.bucketCount fresh).map Bucket.journal := by
    rw [List.map_replicate]
    rfl
  rw [inMemory, journals] at opened
  refine reopened_of_ofJournals ?_ opened
  intro old member
  rw [List.eq_of_mem_replicate member]
  exact fresh_kept

theorem bucketCount_ne_zero {settings : Settings} {disk : Disk}
    (opened : inMemory settings disk = .ok store) : settings.bucketCount ≠ 0 := by
  intro none
  simp [inMemory, ofJournals, Settings.validate, none] at opened

end Store

namespace World

variable {world : World}

/-- What an event does to a world. All but asking and counting happens in the store alone. -/
inductive Moves (world : World) : Event → World → Prop
  | ask (request : Request) : Moves world (.ask request) (world.ask request)
  | call (call : PayloadCall) : Moves world (.call call) (world.call call)
  | still {event : Event} {after : Store} (silent : event.offer? = none)
      (quiet : Store.Quiet 0 world.store after) (outbox : after.outbox = world.store.outbox) :
      Moves world event { world with store := after }
  | reopen {settings used : Settings} {disk : Disk} {after : Store}
      (reopened : Store.Reopened (Store.blank used disk) world.store.buckets.toList after) :
      Moves world (.restart settings) { world with store := after }

theorem moves_step (kept : world.store.Kept) (event : Event) :
    world.Moves event (world.step event) := by
  cases event with
  | ask request => exact .ask request
  | call call => exact .call call
  | tell index mood =>
    simp only [step, tell]
    split
    · exact .still rfl (.note _ _ world.store.closed world.store.disk) rfl
    · rename_i bucket found
      refine .still rfl (.tend found (.flush _ ?_)) rfl
      intro batches held
      rwa [Journal.held?_told]
  | restart settings =>
    simp only [step, restart]
    cases opened : Store.ofJournals settings world.store.journals world.store.disk with
    | error fault => exact .still rfl (.note _ _ true world.store.disk) rfl
    | ok after =>
      obtain ⟨used, reopened⟩ := Store.reopened_of_ofJournals (Store.forall_toList kept) opened
      exact .reopen reopened

theorem offers_step (world : World) (event : Event) :
    (world.step event).offers = world.offers ++ event.offer?.toList := by
  cases event with
  | ask request => cases offer : request.offer? <;> simp [step, ask, offers, Event.offer?, offer]
  | call => exact (List.append_nil _).symm
  | tell | restart =>
    simp only [step, tell, restart]
    split <;> exact (List.append_nil _).symm

theorem offers_run (world : World) (events : List Event) :
    (world.run events).offers = world.offers ++ events.filterMap Event.offer? := by
  induction events generalizing world with
  | nil => exact (List.append_nil _).symm
  | cons event events ih =>
    have rest := ih (world.step event)
    rw [offers_step] at rest
    cases offer : event.offer? <;> simpa [run, offer] using rest

namespace Moves

variable {event : Event} {after : World}

theorem kept (moves : world.Moves event after) (kept : world.store.Kept) : after.store.Kept := by
  cases moves with
  | ask request => exact (Store.serve_took kept request).kept kept
  | call => exact kept
  | still silent quiet outbox => exact quiet.kept kept
  | reopen reopened => exact reopened.kept (Store.blank_kept _ _)

/-- A store keeps the number of its buckets for life, and over restarts. -/
theorem size (moves : world.Moves event after) (kept : world.store.Kept) :
    after.store.buckets.size = world.store.buckets.size := by
  cases moves with
  | ask request => exact (Store.serve_took kept request).size
  | call => rfl
  | still silent quiet outbox => exact quiet.size
  | reopen reopened =>
    apply reopened.size.trans
    rw [Array.length_toList]
    exact Nat.zero_add _

end Moves

/-- The store is kept by its journals, and its outbox was emptied. -/
structure Orderly (world : World) : Prop where
  kept : world.store.Kept
  settled : world.store.outbox = .empty

theorem Orderly.step (orderly : world.Orderly) (event : Event) : (world.step event).Orderly := by
  have moves := moves_step orderly.kept event
  refine ⟨moves.kept orderly.kept, ?_⟩
  generalize world.step event = after at moves
  cases moves with
  | ask request => rfl
  | call => exact orderly.settled
  | still silent quiet outbox => exact outbox.trans orderly.settled
  | reopen reopened => exact reopened.outbox

theorem run_concat (world : World) (events : List Event) (event : Event) :
    world.run (events ++ [event]) = (world.run events).step event := by
  simp [run, List.foldl_append]

section Run
variable {settings : Settings} {disk : Disk} {store : Store}
  (opened : Store.inMemory settings disk = .ok store) (payloads : Payloads) (events : List Event)
include opened

theorem run_orderly : ((start store payloads).run events).Orderly := by
  obtain ⟨used, reopened⟩ := Store.reopened_of_inMemory opened
  have first : (start store payloads).Orderly :=
    ⟨reopened.kept (Store.blank_kept used disk), reopened.outbox⟩
  induction events using List.reverseRecOn with
  | nil => exact first
  | append_singleton events event ih =>
    rw [run_concat]
    exact ih.step event

/-- What holds at first and is kept by every event holds after every run. -/
theorem run_invariant {P : World → Prop} (first : P (start store payloads))
    (step : ∀ world event, world.Orderly → P world → P (world.step event)) :
    P ((start store payloads).run events) := by
  induction events using List.reverseRecOn with
  | nil => exact first
  | append_singleton events event ih =>
    rw [run_concat]
    exact step _ event (run_orderly opened payloads events) ih

theorem size_run :
    ((start store payloads).run events).store.buckets.size = settings.bucketCount := by
  refine run_invariant opened payloads events ?_
    fun world event orderly same => ((moves_step orderly.kept event).size orderly.kept).trans same
  obtain ⟨used, reopened⟩ := Store.reopened_of_inMemory opened
  apply reopened.size.trans
  rw [List.length_replicate]
  exact Nat.zero_add _

end Run

end World

/-! A small world -/

/-- One bucket, whose journal is compacted whenever it is cleaned up. -/
def Settings.single : Settings :=
  { Settings.standard with bucketCount := 1, compactionThreshold := 0 }

/-- The store over one fresh journal. -/
def Store.single : Store := { blank Settings.single Disk.empty with buckets := #[fresh] }

theorem Store.inMemory_single : inMemory Settings.single Disk.empty = .ok single := rfl

/-- The queue of one client. -/
def QueueKey.client : QueueKey := ⟨"c", false⟩

def Publish.ofQos (qos : Qos) (uniqueId : String) (payload : UInt64) : Publish :=
  ⟨noPacketId, qos, "t", uniqueId, payload, 0, none, false, false, defaultSize "t" uniqueId⟩

/-- Two messages arrive, the store is restarted, and the first message handed out. -/
def World.sample : List Event :=
  [.call (.add [1]),
    .ask (.add .client (.publish (.ofQos .atLeastOnce "u1" 1)) 10 .discard 0),
    .ask (.add .client (.publish (.ofQos .atMostOnce "u2" 2)) 10 .discard 0),
    .restart .single,
    .ask (.readNew .client [1] 1000 0 0)]

end DeliveryQueue
