import DeliveryQueue.Proofs.Fate
import DeliveryQueue.Proofs.Independence

/-!
Messages in flight. A message of QoS 1 or 2 that was handed out keeps its place, and its id if it
has one, until it is settled, whatever else is asked, fails or is restarted
(`World.in_flight_until_settled`).
-/
namespace DeliveryQueue

namespace World

/-- Some event of a run does this. -/
def Meets (world : World) (events : List Event) (does : World → Event → Prop) : Prop :=
  ∃ front event, front ++ [event] <+: events ∧ does (world.run front) event

/-- A request is asked, and answered so. -/
def Answers (request : Request) (answer : Answer) (world : World) (event : Event) : Prop :=
  event = .ask request ∧ (world.store.serve request).1 = answer

section Events
variable (place : Nat) (key : EntryKey)

/-- A removal by packet id, or clearing the queue, succeeds and takes the entry away. -/
def Deletes (id : UInt16) (world : World) (event : Event) : Prop :=
  ((∃ expected uniqueId, Answers (.remove key.queue.id id expected place)
      (.uniqueId (.ok uniqueId)) world event) ∨
    Answers (.clear key.queue place) (.done (.ok ())) world event) ∧
    (world.step event).store.entryAt place key = none

/-- A PUBREL takes the place of the message with this unique id. -/
def Releases (id : UInt16) (uniqueId : String) : World → Event → Prop :=
  Answers (.replace key.queue.id id place) (.uniqueId (.ok (some uniqueId)))

/-- A removal by unique id, or clearing the queue, succeeds and takes the entry away. -/
def DeletesShared (uniqueId : String) (world : World) (event : Event) : Prop :=
  (Answers (.removeShared key.queue.id uniqueId place) (.found (.ok true)) world event ∨
    Answers (.clear key.queue place) (.done (.ok ())) world event) ∧
    (world.step event).store.entryAt place key = none

/-- A taken message with this unique id is given back. -/
def GivesBack (uniqueId : String) : World → Event → Prop :=
  Answers (.giveBack key.queue.id uniqueId place) (.found (.ok true))

/-- After a run the message is in flight under its id, or its PUBREL is after it was released,
unless it was deleted. -/
def StaysInFlight (world : World) (stored : StoredPublish) (id : UInt16) (rest : List Event) :
    Prop :=
  world.Meets rest (Deletes place key id) ∨
    (world.run rest).store.entryAt place key =
      some (.publish { stored with packetId := some id }) ∨
    (world.run rest).store.entryAt place key = some (.pubrel id) ∧
      world.Meets rest (Releases place key id stored.uniqueId)

/-- After a run the message is marked as taken, unless it was given back or deleted. -/
def StaysTaken (world : World) (stored : StoredPublish) (rest : List Event) : Prop :=
  world.Meets rest (GivesBack place key stored.uniqueId) ∨
    world.Meets rest (DeletesShared place key stored.uniqueId) ∨
    (world.run rest).store.entryAt place key = some (.taken stored)

/-- If a reading after a run hands the message out again, and it was stored all the time, it was
given back. -/
def HandedOutAgain (world : World) (stored : StoredPublish) (rest : List Event) : Prop :=
  ∀ pool byteLimit now message other, Store.HandsOut (world.run rest).store
      ((world.run rest).ask (.readNew key.queue pool byteLimit now place)).store key.queue place
      message key other →
    (∀ front, front <+: rest → (world.run front).store.entryAt place key ≠ none) →
      world.Meets rest (GivesBack place key stored.uniqueId)

end Events

variable {world : World} {place : Nat} {key : EntryKey} {entry : Entry}

theorem Meets.concat {events : List Event} {does : World → Event → Prop}
    (meets : world.Meets events does) (event : Event) : world.Meets (events ++ [event]) does := by
  obtain ⟨front, met, first, done⟩ := meets
  exact ⟨front, met, first.trans (List.prefix_append _ _), done⟩

theorem Meets.last {events : List Event} {event : Event} {does : World → Event → Prop}
    (done : does (world.run events) event) : world.Meets (events ++ [event]) does :=
  ⟨events, event, List.prefix_rfl, done⟩

/-- An event leaves an entry in flight alone, or is a request that settles it. -/
theorem step_fate (orderly : world.Orderly) (ahead : world.Ahead)
    (there : world.store.entryAt place key = some entry) (flies : entry.InFlight) (event : Event) :
    (world.step event).store.entryAt place key = some entry ∨
      ∃ request, event = .ask request ∧
        Store.Fate place key ((world.step event).store.entryAt place key) entry request
          (world.store.serve request).1 := by
  have moves := moves_step orderly.kept event
  generalize world.step event = after at moves ⊢
  cases moves with
  | ask request =>
    right
    exact ⟨request, rfl, Store.serve_fate orderly.kept there flies ahead.under request⟩
  | call => exact .inl there
  | still silent quiet outbox =>
    left
    rw [← there]
    exact Store.entryAt_of_contents_eq quiet.contents place key
  | reopen reopened =>
    left
    rw [← there]
    exact Store.entryAt_of_contents_eq reopened.contents_eq place key

section Step
variable {stored : StoredPublish} {id : UInt16} (orderly : world.Orderly) (ahead : world.Ahead)
include orderly ahead

/-- A message in flight to one client stays, is deleted or is released. -/
theorem step_inFlight (unshared : key.queue.shared = false)
    (acknowledged : stored.qos ≠ .atMostOnce)
    (there : world.store.entryAt place key = some (.publish { stored with packetId := some id }))
    (event : Event) :
    (world.step event).store.entryAt place key =
        some (.publish { stored with packetId := some id }) ∨
      Deletes place key id world event ∨
      (world.step event).store.entryAt place key = some (.pubrel id) ∧
        Releases place key id stored.uniqueId world event := by
  have flies : (Entry.publish { stored with packetId := some id }).InFlight :=
    StoredPublish.inFlight_inFlight acknowledged false id
  rcases step_fate orderly ahead there flies event with same | ⟨request, rfl, fate⟩
  · exact .inl same
  · generalize left : (world.step (.ask request)).store.entryAt place key = after at fate
    generalize answered : (world.store.serve request).1 = answer at fate
    generalize is : Entry.publish { stored with packetId := some id } = entry at fate
    cases fate with
    | keep same => exact .inl same
    | release _ carries released =>
      cases is
      cases carries
      exact .inr (.inr ⟨released, rfl, answered⟩)
    | remove _ carries gone =>
      rw [← is] at carries
      cases carries
      exact .inr (.inl ⟨.inl ⟨_, _, rfl, answered⟩, left.trans gone⟩)
    | removeShared shared | giveBack shared => cases shared.symm.trans unshared
    | clear gone => exact .inr (.inl ⟨.inr ⟨rfl, answered⟩, left.trans gone⟩)

/-- A PUBREL stays or is deleted. -/
theorem step_pubrel (unshared : key.queue.shared = false)
    (there : world.store.entryAt place key = some (.pubrel id)) (event : Event) :
    (world.step event).store.entryAt place key = some (.pubrel id) ∨
      Deletes place key id world event := by
  rcases step_fate orderly ahead there (Entry.inFlight_pubrel id) event with
    same | ⟨request, rfl, fate⟩
  · exact .inl same
  · generalize left : (world.step (.ask request)).store.entryAt place key = after at fate
    generalize answered : (world.store.serve request).1 = answer at fate
    cases fate with
    | keep same => exact .inl same
    | remove _ carries gone =>
      cases carries
      exact .inr ⟨.inl ⟨_, _, rfl, answered⟩, left.trans gone⟩
    | removeShared shared => cases shared.symm.trans unshared
    | clear gone => exact .inr ⟨.inr ⟨rfl, answered⟩, left.trans gone⟩

/-- A message that was taken stays so, is given back or is deleted. -/
theorem step_taken (acknowledged : stored.qos ≠ .atMostOnce)
    (there : world.store.entryAt place key = some (.taken stored)) (event : Event) :
    (world.step event).store.entryAt place key = some (.taken stored) ∨
      GivesBack place key stored.uniqueId world event ∨
      DeletesShared place key stored.uniqueId world event := by
  have flies : (Entry.taken stored).InFlight :=
    StoredPublish.inFlight_inFlight acknowledged true noPacketId
  rcases step_fate orderly ahead there flies event with same | ⟨request, rfl, fate⟩
  · exact .inl same
  · generalize left : (world.step (.ask request)).store.entryAt place key = after at fate
    generalize answered : (world.store.serve request).1 = answer at fate
    generalize is : Entry.taken stored = entry at fate
    cases fate with
    | keep same => exact .inl same
    | release => cases is
    | remove _ carries =>
      rw [← is] at carries
      cases carries
    | removeShared _ named gone =>
      rw [← is] at named
      cases named
      exact .inr (.inr ⟨.inl ⟨rfl, answered⟩, left.trans gone⟩)
    | giveBack =>
      cases is
      exact .inr (.inl ⟨rfl, answered⟩)
    | clear gone => exact .inr (.inr ⟨.inr ⟨rfl, answered⟩, left.trans gone⟩)

end Step

theorem run_append (world : World) (front back : List Event) :
    world.run (front ++ back) = (world.run front).run back := List.foldl_append

/-- What was deleted was gone at some time, and what is still taken does not wait. -/
theorem StaysTaken.again {stored : StoredPublish} {rest : List Event}
    (stays : StaysTaken place key world stored rest) :
    HandedOutAgain place key world stored rest := by
  intro pool byteLimit now message other hands always
  rcases stays with given | ⟨front, event, first, _, gone⟩ | taken
  · exact given
  · have absent := always (front ++ [event]) first
    rw [run_concat] at absent
    exact absurd gone absent
  · cases taken.symm.trans hands.waited

section Run
variable {settings : Settings} {disk : Disk} {store : Store}
  (opened : Store.inMemory settings disk = .ok store) (payloads : Payloads)
include opened

/-- All that holds in a run holds after it, too, as it goes on. -/
theorem run_orderly_ahead {past rest : List Event}
    (few : (((start store payloads).run past).run rest).drawn < 2 ^ 63) :
    (((start store payloads).run past).run rest).Orderly ∧
      (((start store payloads).run past).run rest).Ahead := by
  rw [← run_append] at few ⊢
  exact ⟨run_orderly opened payloads _, run_ahead opened payloads _ few⟩

theorem run_staysInFlight {past : List Event} {stored : StoredPublish} {id : UInt16}
    (acknowledged : stored.qos ≠ .atMostOnce) (unshared : key.queue.shared = false)
    (there : ((start store payloads).run past).store.entryAt place key =
      some (.publish { stored with packetId := some id })) (rest : List Event)
    (few : (((start store payloads).run past).run rest).drawn < 2 ^ 63) :
    StaysInFlight place key ((start store payloads).run past) stored id rest := by
  induction rest using List.reverseRecOn with
  | nil => exact .inr (.inl there)
  | append_singleton rest event ih =>
    rw [run_concat] at few
    have fewer := Nat.lt_of_le_of_lt (drawn_le_step _ event) few
    obtain ⟨orderly, ahead⟩ := run_orderly_ahead opened payloads fewer
    unfold StaysInFlight
    rw [run_concat]
    rcases ih fewer with deleted | flies | ⟨waits, released⟩
    · exact .inl (deleted.concat event)
    · rcases step_inFlight orderly ahead unshared acknowledged flies event with
        same | deletes | ⟨waits, releases⟩
      · exact .inr (.inl same)
      · exact .inl (.last deletes)
      · exact .inr (.inr ⟨waits, .last releases⟩)
    · rcases step_pubrel orderly ahead unshared waits event with same | deletes
      · exact .inr (.inr ⟨same, released.concat event⟩)
      · exact .inl (.last deletes)

theorem run_staysTaken {past : List Event} {stored : StoredPublish}
    (acknowledged : stored.qos ≠ .atMostOnce)
    (there : ((start store payloads).run past).store.entryAt place key = some (.taken stored))
    (rest : List Event)
    (few : (((start store payloads).run past).run rest).drawn < 2 ^ 63) :
    StaysTaken place key ((start store payloads).run past) stored rest := by
  induction rest using List.reverseRecOn with
  | nil => exact .inr (.inr there)
  | append_singleton rest event ih =>
    rw [run_concat] at few
    have fewer := Nat.lt_of_le_of_lt (drawn_le_step _ event) few
    obtain ⟨orderly, ahead⟩ := run_orderly_ahead opened payloads fewer
    unfold StaysTaken
    rw [run_concat]
    rcases ih fewer with given | deleted | taken
    · exact .inl (given.concat event)
    · exact .inr (.inl (deleted.concat event))
    · rcases step_taken orderly ahead acknowledged taken event with same | gives | deletes
      · exact .inr (.inr same)
      · exact .inl (.last gives)
      · exact .inr (.inl (.last deletes))

/-- Once a message of QoS 1 or 2 was handed out, it stays where it is, as long as fewer than 2^63
numbers are drawn. To one client it stays under its id until it is deleted, and only its PUBREL may
take its place. Out of a shared queue it stays taken until it is given back or deleted, and it is
not handed out again unless it was given back. -/
theorem in_flight_until_settled {past : List Event} {queue : QueueKey} {pool : List UInt16}
    {byteLimit now : UInt64} {place : Nat} {messages : List Publish}
    (answered : (((start store payloads).run past).store.serve
      (.readNew queue pool byteLimit now place)).1 = .messages (.ok messages)) :
    let before := (start store payloads).run past
    let after := before.ask (.readNew queue pool byteLimit now place)
    ∃ keys : List EntryKey, keys.Nodup ∧ List.Forall₂ (fun message key => ∃ stored,
      Store.HandsOut before.store after.store queue place message key stored ∧
        ∀ rest, (after.run rest).drawn < 2 ^ 63 →
          (queue.shared = false →
            StaysInFlight place key after stored message.packetId rest) ∧
          (queue.shared = true →
            StaysTaken place key after stored rest ∧ HandedOutAgain place key after stored rest))
      (messages.filter fun message => message.qos ≠ .atMostOnce) keys := by
  intro before after
  have kept := (run_orderly opened payloads past).kept
  have later : (start store payloads).run
      (past ++ [.ask (.readNew queue pool byteLimit now place)]) = after := run_concat _ _ _
  obtain ⟨keys, apart, handed⟩ := Store.readNew_hands kept (Answer.messages.inj answered)
  refine ⟨keys, apart, handed.imp ?_⟩
  rintro message key ⟨stored, hands⟩
  have flies := hands.flies
  refine ⟨stored, ⟨hands.its, hands.waited, hands.free, hands.acknowledged, hands.content, flies⟩,
    ?_⟩
  rw [← later]
  intro rest few
  constructor
  · intro unshared
    rw [unshared] at flies
    have client : key.queue.shared = false := by rw [hands.its, unshared]
    refine run_staysInFlight opened payloads hands.acknowledged client ?_ rest few
    rw [later]
    exact flies
  · intro shared
    rw [shared] at flies
    have taken : ((start store payloads).run
        (past ++ [.ask (.readNew queue pool byteLimit now place)])).store.entryAt place key =
          some (.taken stored) := by
      rw [later]
      exact flies
    have stays := run_staysTaken opened payloads hands.acknowledged taken rest few
    exact ⟨stays, stays.again⟩

end Run

theorem in_flight_until_settled_sample :
    let before := (start .single .empty).run (sample.take 4)
    let after := before.ask (.readNew .client [1] 1000 0 0)
    ∃ keys : List EntryKey, keys.Nodup ∧ List.Forall₂ (fun message key => ∃ stored,
      Store.HandsOut before.store after.store .client 0 message key stored ∧
        ∀ rest, (after.run rest).drawn < 2 ^ 63 →
          StaysInFlight 0 key after stored message.packetId rest)
      [(StoredPublish.ofPublish (.ofQos .atLeastOnce "u1" 1)).toPublish 1] keys := by
  have answered : (((start .single .empty).run (sample.take 4)).store.readNew .client [1] 1000 0
      0).1 = .ok [(StoredPublish.ofPublish (.ofQos .atLeastOnce "u1" 1)).toPublish 1] := by
    decide +kernel
  have served : (((start .single .empty).run (sample.take 4)).store.serve
      (.readNew .client [1] 1000 0 0)).1 =
        .messages (.ok [(StoredPublish.ofPublish (.ofQos .atLeastOnce "u1" 1)).toPublish 1]) :=
    congrArg Answer.messages answered
  obtain ⟨keys, apart, handed⟩ := in_flight_until_settled Store.inMemory_single .empty served
  refine ⟨keys, apart, handed.imp ?_⟩
  rintro message key ⟨stored, hands, stays⟩
  exact ⟨stored, hands, fun rest few => (stays rest few).1 rfl⟩

/-- A message is added to the queue of a client. -/
def adds (uniqueId : String) (payload : UInt64) : Event :=
  .ask (.add .client (.publish (.ofQos .atLeastOnce uniqueId payload)) 10 .discard 0)

/-- One message is in flight to a client. -/
def sending : World :=
  ((start .single .empty).run [adds "u1" 1]).ask (.readNew .client [1] 1000 0 0)

/-- Once all numbers were drawn, a message in flight gives way to one that gets its number. -/
theorem in_flight_displaced : ¬ ∀ (past rest : List Event) (message : Publish) (key : EntryKey)
    (stored : StoredPublish),
    let before := (start .single .empty).run past
    let after := before.ask (.readNew .client [1] 1000 0 0)
    Store.HandsOut before.store after.store .client 0 message key stored →
      StaysInFlight 0 key after stored message.packetId rest := by
  intro always
  let stored : StoredPublish := .ofPublish (.ofQos .atLeastOnce "u1" 1)
  let key : EntryKey := ⟨.client, Sequence.start⟩
  have hands : Store.HandsOut ((start .single .empty).run [adds "u1" 1]).store sending.store .client
      0 (stored.toPublish 1) key stored :=
    ⟨rfl, by decide +kernel, rfl, by decide, rfl, by decide +kernel⟩
  -- the number of requests in vain is nothing to compute with
  obtain ⟨count, around⟩ : ∃ count : Nat,
      sending.store.sequence.next + .ofNat count = Sequence.start :=
    ⟨2 ^ 64 - 1, by decide +kernel⟩
  let rest : List Event := List.replicate count (.ask .vain) ++ [adds "u2" 2]
  have requests {front : List Event} {event : Event} (met : front ++ [event] <+: rest) :
      event = .ask .vain ∨ event = adds "u2" 2 := by
    have member : event ∈ rest := met.subset (List.mem_append_right _ List.mem_cons_self)
    exact (List.mem_append.mp member).imp List.eq_of_mem_replicate List.mem_singleton.mp
  -- what is added last stands under the number of what is in flight
  have displaced : (sending.run rest).store.entryAt 0 key =
      some (.publish (.ofPublish (.ofQos .atLeastOnce "u2" 2))) := by
    have orderly : sending.Orderly := run_orderly Store.inMemory_single .empty
      [adds "u1" 1, .ask (.readNew .client [1] 1000 0 0)]
    obtain ⟨bucket, opened, bare⟩ : ∃ bucket, sending.store.bucket 0 = .ok bucket ∧
        (bucket.queueEntries ⟨"b", false⟩).isEmpty = true :=
      Store.exists_bucket (by decide +kernel)
    have agrees := (orderly.kept (Store.getElem?_of_bucket opened)).agrees
    have came := store_run_vain ⟨opened, agrees, List.isEmpty_iff.mp bare⟩ orderly.settled count
    rw [around] at came
    have last : (sending.run rest).store = Store.after _ _ :=
      (congrArg World.store (run_concat sending _ (adds "u2" 2))).trans
        (congrArg (Store.after · _) came)
    rw [last]
    decide +kernel
  rcases always [adds "u1" 1] rest _ key stored hands with
    ⟨front, event, met, does, -⟩ | still | ⟨released, -⟩
  · rcases does with ⟨_, _, asked, -⟩ | ⟨asked, -⟩ <;>
    · rcases requests met with rfl | rfl <;> cases asked
  · cases displaced.symm.trans still
  · cases displaced.symm.trans released

end World

end DeliveryQueue
