import DeliveryQueue.Proofs.Admitting
import DeliveryQueue.Proofs.Independence

/-!
What becomes of messages that are added to a queue with one limit and one policy, if nothing else is
done to the queue (`World.policies_keep_ends`). Of either class the queue keeps the earliest or the
latest, and each of the others is reported, counted and released once.
-/
namespace DeliveryQueue

/-- What came of a message that was added. -/
structure Addition where
  message : Publish
  answer : Except QueueFault Unit
  notices : List Notice
  released : List UInt64
  /-- How many messages were counted as given up over it. -/
  discarded : Nat

namespace Addition

/-- The messages that were taken. -/
def taken (additions : List Addition) : List Publish :=
  (additions.filter fun addition => addition.answer.isOk).map message

/-- The messages that were refused. -/
def refused (additions : List Addition) : List Publish :=
  (additions.filter fun addition => !addition.answer.isOk).map message

variable (additions : List Addition) {addition : Addition}

theorem concat_of_ok (took : addition.answer = .ok ()) :
    taken (additions ++ [addition]) = taken additions ++ [addition.message] ∧
      refused (additions ++ [addition]) = refused additions := by
  have ok : addition.answer.isOk = true := by rw [took]; rfl
  constructor
  · simp [taken, ok]
  · simp [refused, ok]

theorem concat_of_error {fault : QueueFault} (failed : addition.answer = .error fault) :
    taken (additions ++ [addition]) = taken additions ∧
      refused (additions ++ [addition]) = refused additions ++ [addition.message] := by
  have ok : addition.answer.isOk = false := by rw [failed]; rfl
  constructor
  · simp [taken, ok]
  · simp [refused, ok]

end Addition

namespace Intake

variable {intake : Intake}

/-- The message that an event adds. -/
def message? (intake : Intake) : Event → Option Publish
  | .ask (.add queue (.publish message) limit policy index) =>
    if (⟨queue, index, limit, policy⟩ : Intake) = intake then some message else none
  | _ => none

/-- The event adds a message, or it does nothing to the queue. -/
def Admits (intake : Intake) : Event → Prop
  | .ask request => (∃ message, request = intake.request message) ∨ intake.Spares request
  | _ => True

theorem message?_request (message : Publish) :
    intake.message? (.ask (intake.request message)) = some message := if_pos rfl

theorem eq_of_message? {event : Event} {message : Publish}
    (added : intake.message? event = some message) : event = .ask (intake.request message) := by
  unfold message? at added
  split at added
  · split at added
    · rename_i same
      subst same
      cases added
      rfl
    · cases added
  · cases added

theorem lost_nil (intake : Intake) : intake.lost [] = [] := by
  rw [lost, Publish.ofClass, Publish.ofClass, List.filter_nil, List.filter_nil,
    (intake.policy.kept_of_few (Nat.zero_le _)).2]
  rfl

/-- What was added is accounted for: the queue holds what it keeps of the messages that it took,
each of the others was reported, counted and released once, and so was released, but not reported,
what was refused. -/
structure Accounts (intake : Intake) (additions : List Addition) (store : Store) : Prop where
  holds : intake.Holds (Addition.taken additions) store
  notices : (additions.flatMap Addition.notices).Perm
    ((intake.lost (Addition.taken additions)).map intake.notice)
  released : (additions.flatMap Addition.released).Perm
    ((intake.lost (Addition.taken additions) ++ Addition.refused additions).map Publish.payload)
  discarded : (additions.map Addition.discarded).sum =
    (intake.lost (Addition.taken additions)).length
  refusals : ∀ addition ∈ additions, ∀ fault, addition.answer = .error fault →
    intake.Refusal addition.message fault

theorem accounts_nil {store : Store} (empty : ∀ bucket,
    store.buckets[intake.index]? = some bucket → bucket.queueEntries intake.queue = []) :
    intake.Accounts [] store := by
  have nothing : intake.lost (Addition.taken []) = [] := intake.lost_nil
  constructor
  · intro bucket found messageClass
    have line : bucket.entries.line intake.queue = [] := empty bucket found
    have none : intake.kept (Addition.taken []) messageClass = [] :=
      (intake.policy.kept_of_few (Nat.zero_le _)).1
    rw [line, none]
    rfl
  · rw [nothing]
    exact .refl _
  · rw [nothing]
    exact .refl _
  · rw [nothing]
    rfl
  · intro addition member
    cases member

namespace Accounts

variable {additions : List Addition} {addition : Addition} {store after : Store}
  (accounts : intake.Accounts additions store)
include accounts

/-- One message more was taken. -/
theorem took (took : addition.answer = .ok ())
    (holds : intake.Holds (Addition.taken additions ++ [addition.message]) after)
    (notices : addition.notices =
      (intake.admitted (Addition.taken additions) addition.message).2.toList.map intake.notice)
    (released : addition.released =
      (intake.admitted (Addition.taken additions) addition.message).2.toList.map Publish.payload)
    (discarded : addition.discarded =
      (intake.admitted (Addition.taken additions) addition.message).2.toList.length) :
    intake.Accounts (additions ++ [addition]) after := by
  have lost := intake.lost_concat (Addition.taken additions) addition.message
  obtain ⟨taken, refused⟩ := Addition.concat_of_ok additions took
  constructor
  · rw [taken]
    exact holds
  · rw [taken, List.flatMap_append, List.flatMap_singleton, notices]
    refine .trans ?_ (lost.map _).symm
    rw [List.map_append]
    exact accounts.notices.append_right _
  · rw [taken, refused, List.flatMap_append, List.flatMap_singleton, released]
    refine (accounts.released.append_right _).trans ?_
    rw [← List.map_append]
    refine List.Perm.map _ ?_
    rw [List.append_assoc]
    refine (List.perm_append_comm.append_left _).trans ?_
    rw [← List.append_assoc]
    exact lost.symm.append_right _
  · rw [taken, List.map_append, List.sum_append, List.map_singleton, List.sum_singleton, discarded,
      lost.length_eq, List.length_append, accounts.discarded]
  · refine List.forall_mem_append.mpr ⟨accounts.refusals, List.forall_mem_singleton.mpr ?_⟩
    intro fault failed
    cases took.symm.trans failed

/-- One message more was refused. -/
theorem refused {fault : QueueFault} (failed : addition.answer = .error fault)
    (refusal : intake.Refusal addition.message fault)
    (holds : intake.Holds (Addition.taken additions) after) (notices : addition.notices = [])
    (released : addition.released = [addition.message.payload])
    (discarded : addition.discarded = 0) :
    intake.Accounts (additions ++ [addition]) after := by
  obtain ⟨taken, refused⟩ := Addition.concat_of_error additions failed
  constructor
  · rw [taken]
    exact holds
  · rw [taken, List.flatMap_append, List.flatMap_singleton, notices, List.append_nil]
    exact accounts.notices
  · rw [taken, refused, List.flatMap_append, List.flatMap_singleton, released,
      ← List.append_assoc, List.map_append]
    exact accounts.released.append_right _
  · rw [taken, List.map_append, List.sum_append, List.map_singleton, List.sum_singleton, discarded,
      Nat.add_zero]
    exact accounts.discarded
  · refine List.forall_mem_append.mpr ⟨accounts.refusals, List.forall_mem_singleton.mpr ?_⟩
    intro cause same
    cases failed.symm.trans same
    exact refusal

end Accounts

end Intake

namespace World

variable {world : World} {intake : Intake} {seen : List Addition}

/-- What comes of a message that is added. The outbox is empty before. -/
def addition (world : World) (intake : Intake) (message : Publish) : Addition :=
  let served := world.store.add intake.queue (.publish message) intake.limit intake.policy
    intake.index
  ⟨message, served.1, served.2.outbox.notices, served.2.outbox.released,
    (served.2.stats.discarded - world.store.stats.discarded).toNat⟩

/-- What comes of all messages that events add. -/
def additions (world : World) (intake : Intake) : List Event → List Addition
  | [] => []
  | event :: events => ((intake.message? event).map (world.addition intake)).toList ++
      (world.step event).additions intake events

/-- The budget holds with each request, without any message dropped to keep it. -/
def Within (world : World) : List Event → Prop
  | [] => True
  | .ask request :: events => world.store.Within request ∧ (world.ask request).Within events
  | event :: events => (world.step event).Within events

def decidableWithin (world : World) : (events : List Event) → Decidable (world.Within events)
  | [] => isTrue trivial
  | .ask request :: events =>
    have := (world.ask request).decidableWithin events
    inferInstanceAs (Decidable (_ ∧ _))
  | .call call :: events => (world.call call).decidableWithin events
  | .tell index mood :: events => (world.tell index mood).decidableWithin events
  | .restart settings :: events => (world.restart settings).decidableWithin events

instance (world : World) (events : List Event) : Decidable (world.Within events) :=
  world.decidableWithin events

theorem map_message_additions (world : World) (intake : Intake) (events : List Event) :
    (world.additions intake events).map Addition.message = events.filterMap intake.message? := by
  induction events generalizing world with
  | nil => rfl
  | cons event events ih =>
    rw [additions, List.map_append, ih]
    cases added : intake.message? event <;> simp [added, addition]

section Ask
variable {message : Publish} (orderly : world.Orderly) (accounts : intake.Accounts seen world.store)
include orderly accounts

theorem accounts_of_ok (ahead : world.Ahead) (within : world.store.Within (intake.request message))
    (took : (world.addition intake message).answer = .ok ()) :
    intake.Accounts (seen ++ [world.addition intake message])
      (world.ask (intake.request message)).store := by
  have takes := Intake.takes_of_ok orderly.kept ahead.under accounts.holds within
    (congrArg Answer.done took)
  obtain ⟨holds, notices, released, discarded⟩ := takes
  rw [orderly.settled] at notices released
  refine accounts.took took holds notices released ?_
  -- at most one message is given up, so that the word tells how many
  have few : (intake.admitted (Addition.taken seen) message).2.toList.length ≤ 1 :=
    Option.length_toList_le
  have further : (world.addition intake message).discarded =
      (UInt64.ofNat (intake.admitted (Addition.taken seen) message).2.toList.length).toNat :=
    congrArg UInt64.toNat ((congrArg (· - _) (discarded.trans (UInt64.add_comm _ _))).trans
      (UInt64.add_sub_cancel _ _))
  exact further.trans (UInt64.toNat_ofNat_of_lt' (Nat.lt_of_le_of_lt few (by decide)))

theorem accounts_of_error {fault : QueueFault}
    (within : world.store.Within (intake.request message))
    (failed : (world.addition intake message).answer = .error fault) :
    intake.Accounts (seen ++ [world.addition intake message])
      (world.ask (intake.request message)).store := by
  have failedToo : (world.store.addPublish intake.queue message intake.limit intake.policy
      intake.index).1 = .error fault := failed
  have same := (Store.addPublish_untouched failedToo).eq_of_sound fun _ _ found =>
    (orderly.kept found).journal_sound
  rw [orderly.settled] at same
  refine accounts.refused failed ?_ ?_ ?_ ?_ ?_
  · exact Intake.refusal_of_error orderly.kept within (congrArg Answer.done failed)
  · exact accounts.holds.of_contents_eq (congrArg Store.contents same :)
  · exact congrArg (fun store => store.outbox.notices) same
  · exact congrArg (fun store => store.outbox.released) same
  · have stats : (world.store.addPublish intake.queue message intake.limit intake.policy
        intake.index).2.stats.discarded = world.store.stats.discarded :=
      congrArg (fun store => store.stats.discarded) same
    exact congrArg UInt64.toNat ((congrArg (· - _) stats).trans (UInt64.sub_self _))

end Ask

/-- What events other than additions leave is accounted for as it was. -/
theorem accounts_of_spared (orderly : world.Orderly) (accounts : intake.Accounts seen world.store)
    {event : Event} (admits : intake.Admits event) (none : intake.message? event = none)
    (within : ∀ request, event = .ask request → world.store.Within request) :
    intake.Accounts seen (world.step event).store := by
  refine { accounts with holds := ?_ }
  have moves := moves_step orderly.kept event
  generalize world.step event = after at moves
  cases moves with
  | ask request =>
    rcases admits with ⟨message, rfl⟩ | spares
    · rw [Intake.message?_request] at none
      cases none
    · exact accounts.holds.serve orderly.kept (within request rfl) spares
  | call => exact accounts.holds
  | still _ quiet _ => exact accounts.holds.of_contents_eq quiet.contents
  | reopen reopened => exact accounts.holds.of_contents_eq reopened.contents_eq

theorem step_accounts (orderly : world.Orderly) (ahead : world.Ahead)
    (accounts : intake.Accounts seen world.store) {event : Event} (admits : intake.Admits event)
    (within : ∀ request, event = .ask request → world.store.Within request) :
    intake.Accounts (seen ++ ((intake.message? event).map (world.addition intake)).toList)
      (world.step event).store := by
  cases added : intake.message? event with
  | none =>
    rw [Option.map_none, Option.toList_none, List.append_nil]
    exact accounts_of_spared orderly accounts admits added within
  | some message =>
    obtain rfl := Intake.eq_of_message? added
    cases answer : (world.addition intake message).answer with
    | ok => exact accounts_of_ok orderly accounts ahead (within _ rfl) answer
    | error fault => exact accounts_of_error orderly accounts (within _ rfl) answer

/-- As events go on, all that was added is accounted for. -/
theorem run_accounts (orderly : world.Orderly) (ahead : world.Ahead)
    (accounts : intake.Accounts seen world.store) {events : List Event}
    (admits : ∀ event ∈ events, intake.Admits event) (within : world.Within events)
    (few : (world.run events).drawn < 2 ^ 63) :
    intake.Accounts (seen ++ world.additions intake events) (world.run events).store := by
  induction events generalizing world seen with
  | nil =>
    rw [additions, List.append_nil]
    exact accounts
  | cons event events ih =>
    obtain ⟨first, others⟩ := List.forall_mem_cons.mp admits
    have early : (world.step event).drawn < 2 ^ 63 :=
      Nat.lt_of_le_of_lt (drawn_le_run (world.step event) events) few
    have here : ∀ request, event = .ask request → world.store.Within request := by
      rintro request rfl
      exact within.1
    have rest : (world.step event).Within events := by
      cases event with
      | ask => exact within.2
      | _ => exact within
    rw [additions, ← List.append_assoc]
    exact ih (orderly.step event) (step_ahead event orderly.kept (fun _ => ahead) early)
      (step_accounts orderly ahead accounts first here) others rest few

/-- Where nothing but messages with one limit and one policy comes to a queue that was empty, the
queue holds the earliest or the latest of either class, in their order, and gives up the others. -/
theorem policies_keep_ends {settings : Settings} {disk : Disk} {store : Store}
    (opened : Store.inMemory settings disk = .ok store) (payloads : Payloads)
    (before : List Event) (intake : Intake) (events : List Event)
    (empty : ∀ bucket,
      ((start store payloads).run before).store.buckets[intake.index]? = some bucket →
        bucket.queueEntries intake.queue = [])
    (admits : ∀ event ∈ events, intake.Admits event)
    (within : ((start store payloads).run before).Within events)
    (few : ((start store payloads).run (before ++ events)).drawn < 2 ^ 63) :
    let world := (start store payloads).run before
    (world.additions intake events).map Addition.message = events.filterMap intake.message? ∧
      intake.Accounts (world.additions intake events) (world.run events).store := by
  intro world
  have run : (start store payloads).run (before ++ events) = world.run events :=
    List.foldl_append ..
  rw [run] at few
  have early : world.drawn < 2 ^ 63 := Nat.lt_of_le_of_lt (drawn_le_run world events) few
  exact ⟨map_message_additions world intake events,
    run_accounts (run_orderly opened payloads before) (run_ahead opened payloads before early)
      (Intake.accounts_nil empty) admits within few⟩

/-- A queue that keeps the latest message of either class. -/
def lastOnly : Intake := ⟨.client, 0, 1, .discardOldest⟩

/-- Two messages of either class come to the queue, with a restart and a message for another queue
in between. -/
def mixed : List Event :=
  [.ask (lastOnly.request (.ofQos .atLeastOnce "u1" 1)),
    .ask (lastOnly.request (.ofQos .atMostOnce "u2" 2)), .restart .single,
    .ask (.add ⟨"d", false⟩ (.publish (.ofQos .atLeastOnce "u3" 3)) 1 .discard 0),
    .ask (lastOnly.request (.ofQos .exactlyOnce "u4" 4)),
    .ask (lastOnly.request (.ofQos .atMostOnce "u5" 5))]

theorem policies_keep_ends_mixed :
    let world := (start .single .empty).run []
    ((world.additions lastOnly mixed).map Addition.message).map Publish.payload = [1, 2, 4, 5] ∧
      lastOnly.Accounts (world.additions lastOnly mixed) (world.run mixed).store ∧
      (world.additions lastOnly mixed).flatMap Addition.released = [1, 2] := by
  intro world
  have admits : ∀ event ∈ mixed, lastOnly.Admits event := by
    simp only [mixed, List.forall_mem_cons]
    refine ⟨.inl ⟨_, rfl⟩, .inl ⟨_, rfl⟩, trivial, .inr fun same => ?_, .inl ⟨_, rfl⟩,
      .inl ⟨_, rfl⟩, fun _ member => nomatch member⟩
    exact absurd same (by decide)
  have empty : ∀ bucket, world.store.buckets[lastOnly.index]? = some bucket →
      bucket.queueEntries lastOnly.queue = [] := by
    rintro bucket ⟨⟩
    rfl
  obtain ⟨messages, accounts⟩ := policies_keep_ends Store.inMemory_single .empty [] lastOnly mixed
    empty admits (by decide +kernel) (by decide +kernel)
  refine ⟨?_, accounts, by decide +kernel⟩
  rw [messages]
  rfl

/-- Where the numbers begin again at zero, the oldest message is kept and a later one given up. -/
theorem policies_keep_older : ¬ ∀ (store : Store) (intake : Intake) (messages : List Publish),
    store.Reached →
      (∀ bucket, store.buckets[intake.index]? = some bucket →
        bucket.queueEntries intake.queue = []) →
      store.Calm (messages.map intake.request) →
        intake.Holds messages
          (messages.foldl (fun store message => store.after (intake.request message)) store) := by
  intro always
  obtain ⟨events, begun⟩ := exists_run_singleAt 0xFFFFFFFFFFFFFFFF
  let store : Store := .singleAt 0xFFFFFFFFFFFFFFFF
  let intake : Intake := ⟨.client, 0, 2, .discardOldest⟩
  let messages : List Publish := [.ofQos .atLeastOnce "u1" 1, .ofQos .atLeastOnce "u2" 2,
    .ofQos .atLeastOnce "u3" 3]
  have reached : store.Reached :=
    ⟨.single, .empty, .single, .empty, events, Store.inMemory_single, begun.symm⟩
  have empty : ∀ bucket, store.buckets[intake.index]? = some bucket →
      bucket.queueEntries intake.queue = [] := by
    rintro bucket ⟨⟩
    rfl
  have holds := always store intake messages reached empty (by decide +kernel)
  generalize ended : messages.foldl (fun store message => store.after (intake.request message))
    store = last at holds
  have line : last.buckets[0]?.map (fun bucket =>
      (Line.ofClass (bucket.entries.line intake.queue) .qos12).map Prod.snd) =
        some ([.ofQos .atLeastOnce "u3" 3, .ofQos .atLeastOnce "u1" 1].map Publish.entry) := by
    rw [← ended]
    decide +kernel
  obtain ⟨bucket, found, entries⟩ := Option.map_eq_some_iff.mp line
  have kept := holds found .qos12
  rw [entries] at kept
  exact absurd kept (by decide +kernel)

end World

end DeliveryQueue
