import DeliveryQueue.Proofs.Cleaning
import DeliveryQueue.Proofs.Stocking

/-!
What a request does to a queue that holds what it keeps of what it took. Within the QoS 0 budget
(`Store.Within`), a message that the queue takes is admitted as the policy says (`Intake.Takes`),
one that is refused changes nothing, and there are few reasons to refuse it (`Intake.Refusal`).
Requests about other queues make no difference (`Intake.Holds.serve`).
-/
namespace DeliveryQueue

/-! Within the budget -/

namespace Bucket

variable (bucket : Bucket) (budget : Budget) (limit : UInt64)

theorem detach_limit (key : EntryKey) : bucket.detach { budget with limit } key =
    ((bucket.detach budget key).1, { (bucket.detach budget key).2.1 with limit },
      (bucket.detach budget key).2.2) := by
  cases there : bucket.entries.get? key with
  | none => rw [detach_of_get?_eq_none there, detach_of_get?_eq_none there]
  | some entry =>
    rw [detach_of_get?_eq_some there, detach_of_get?_eq_some there]
    cases entry.qos0Bytes? <;> rfl

theorem occupy_limit (key : EntryKey) (entry : Entry) :
    bucket.occupy { budget with limit } key entry =
      ((bucket.occupy budget key entry).1, { (bucket.occupy budget key entry).2 with limit }) := by
  unfold occupy
  cases entry.qos0Bytes? <;> rfl

theorem put_limit (key : EntryKey) (after : Option Entry) :
    bucket.put { budget with limit } key after =
      ((bucket.put budget key after).1, { (bucket.put budget key after).2 with limit }) := by
  cases after with
  | none => simp only [put, detach_limit]
  | some entry => simp only [put, detach_limit, occupy_limit]

/-- What changes do is not up to the limit of the budget. -/
theorem applyAll_limit (changes : List Change) :
    bucket.applyAll { budget with limit } changes =
      ((bucket.applyAll budget changes).1, { (bucket.applyAll budget changes).2.1 with limit },
        (bucket.applyAll budget changes).2.2) := by
  induction changes generalizing bucket budget with
  | nil => rfl
  | cons change changes ih => simp only [applyAll, apply_eq, put_limit, ih]

end Bucket

namespace Store

variable {store after : Store} {index : Nat} {bucket : Bucket} {queue : QueueKey} {plan : Plan}

/-- The budget holds as the request is served, without any message dropped to keep it. -/
def Within (store : Store) (request : Request) : Prop :=
  (store.unlimited.serve request).2.budget.used ≤ store.budget.limit

instance (store : Store) (request : Request) : Decidable (store.Within request) :=
  inferInstanceAs (Decidable (_ ≤ _))

theorem room_of_within {request : Request} (opened : store.bucket request.index = .ok bucket)
    (agrees : bucket.Agrees) (its : request.queue? = some queue)
    (planned : request.plan store.settings.overflow (bucket.queueEntries queue)
      ⟨queue, store.sequence.next⟩ = plan)
    (within : store.Within request) (taken : bucket.refusal? plan.changes = none) :
    (store.carried request.index bucket plan).budget.exceeded = false := by
  have used : (store.unlimited.carried request.index bucket plan).budget =
      { (store.carried request.index bucket plan).budget with limit := 0xFFFFFFFFFFFFFFFF } :=
    congrArg (fun done => done.2.1) (Bucket.applyAll_limit _ store.budget _ plan.changes)
  have openedToo : store.unlimited.bucket request.index = .ok bucket := opened
  have serves := serves_of_room openedToo agrees its planned fun _ => by
    rw [used, Budget.exceeded, decide_eq_false_iff_not, UInt64.not_lt]
    exact UInt64.le_iff_toNat_le.mpr (Nat.le_of_lt_succ (UInt64.toNat_lt_size _))
  have limit : (store.carried request.index bucket plan).budget.limit = store.budget.limit :=
    Bucket.limit_applyAll _ _ _
  rw [Budget.exceeded, decide_eq_false_iff_not, UInt64.not_lt, limit]
  unfold Within at within
  generalize store.unlimited.serve request = served at serves within
  cases serves with
  | refused refused => cases taken.symm.trans refused
  | served =>
    have within : (store.unlimited.carried request.index bucket plan).budget.used ≤
      store.budget.limit := within
    rwa [used] at within

end Store

/-! Taking a message -/

namespace Store

variable {store after : Store} {index : Nat} {bucket : Bucket} {queue : QueueKey}
variable {message : Publish} {limit : Nat} {policy : DiscardPolicy} {evicted : Option EntryKey}

/-- The store once a message was put at the end of a queue and another gave way, if one did. -/
structure Enqueued (store : Store) (queue : QueueKey) (message : Publish)
    (evicted : Option EntryKey) (index : Nat) (bucket : Bucket) (gone : Option StoredPublish)
    (after : Store) : Prop where
  contents : after.contents = store.contents.setIfInBounds index
    (Change.actAll bucket.entries (arrival evicted ⟨queue, store.sequence.next⟩ message))
  released : after.outbox.released = store.outbox.released ++
    (Change.displacedAll bucket.entries
      (arrival evicted ⟨queue, store.sequence.next⟩ message)).filterMap Entry.payload?
  notices : after.outbox.notices = store.outbox.notices ++
    gone.toList.map fun old => .queueFull queue.id old.topic old.qos
  discarded : after.stats.discarded = store.stats.discarded + .ofNat gone.toList.length

/-- Within the budget, nothing else happens. -/
theorem enqueued_of_room (its : bucket.Kept) (opened : store.bucket index = .ok bucket)
    (room : ∀ after, { store with sequence := store.sequence.advance }.commit index bucket
      (arrival evicted ⟨queue, store.sequence.next⟩ message) = (.ok (), after) →
        after.budget.exceeded = false)
    (answered : (store.enqueue queue message evicted index bucket).1 = .ok ()) :
    store.Enqueued queue message evicted index bucket
      (evicted.bind fun old => (bucket.entries.get? old).bind Entry.message?)
      (store.enqueue queue message evicted index bucket).2 := by
  have enqueues := enqueues_enqueue store queue message evicted index bucket
  generalize store.enqueue queue message evicted index bucket = served at enqueues answered ⊢
  cases enqueues with
  | fails failed => cases answered
  | @arrives after last done left =>
    generalize (evicted.bind fun old => (bucket.entries.get? old).bind Entry.message?) = gone
      at left ⊢
    have found : { store with sequence := store.sequence.advance }.buckets[index]? = some bucket :=
      getElem?_of_bucket opened
    have fine : last.budget.exceeded = false := by
      obtain ⟨stats, outbox, same⟩ := yielded_eq after queue gone
      rw [left, same]
      exact room after done
    rw [enforceBudget_of_room fine, ite_self, left]
    rcases commit_cases its found (arrival evicted ⟨queue, store.sequence.next⟩ message) with
      ⟨fault, failed⟩ | ⟨new, budget, committed, also⟩
    · cases done.symm.trans failed
    · cases done.symm.trans also
      cases gone with
      | none =>
        exact ⟨(contents_set rfl).trans (congrArg _ committed.entries), rfl,
          (List.append_nil _).symm, (UInt64.add_zero _).symm⟩
      | some old =>
        exact ⟨(contents_set rfl).trans (congrArg _ committed.entries), rfl, rfl, rfl⟩

theorem room_of_accept (opened : store.bucket index = .ok bucket) (agrees : bucket.Agrees)
    (within : store.Within (.add queue (.publish message) limit policy index))
    (planned : Line.accept (bucket.queueEntries queue) ⟨queue, store.sequence.next⟩ message limit
      policy = ⟨true, arrival evicted ⟨queue, store.sequence.next⟩ message, .done (.ok ())⟩) :
    ∀ after, { store with sequence := store.sequence.advance }.commit index bucket
      (arrival evicted ⟨queue, store.sequence.next⟩ message) = (.ok (), after) →
        after.budget.exceeded = false := by
  intro after done
  let plan : Plan := ⟨true, arrival evicted ⟨queue, store.sequence.next⟩ message, .done (.ok ())⟩
  cases taken : bucket.refusal? plan.changes with
  | some fault =>
    obtain ⟨_, _, _, -, failed⟩ := carryOut_of_refused store index taken
    cases done.symm.trans failed
  | none =>
    obtain ⟨disk, outbox, fine⟩ := carryOut_of_accepted store index taken
    cases done.symm.trans fine
    let request := Request.add queue (.publish message) limit policy index
    have there : store.bucket request.index = .ok bucket := opened
    exact room_of_within there agrees rfl planned within taken

theorem displaced_arrival_none {entries : Entries} {key : EntryKey}
    (fresh : entries.get? key = none) :
    Change.displacedAll entries (arrival none key message) = [] := by
  rw [Change.displacedAll_of_nodup (by simp [arrival])]
  simp [arrival, Change.key, Change.displaced, fresh]

theorem displaced_arrival {entries : Entries} {key old : EntryKey} {entry : Entry}
    (stored : entries.get? old = some entry) (fresh : entries.get? key = none) :
    Change.displacedAll entries (arrival (some old) key message) = [entry] := by
  have apart : old ≠ key := by
    rintro rfl
    cases stored.symm.trans fresh
  rw [Change.displacedAll_of_nodup (by simp [arrival, Change.key, apart])]
  simp [arrival, Change.key, Change.displaced, stored, fresh]

/-- What is in a bucket after its entries were replaced. -/
theorem entries_of_contents {new : Bucket} {entries : Entries}
    (found : store.buckets[index]? = some bucket)
    (changed : after.contents = store.contents.setIfInBounds index entries)
    (there : after.buckets[index]? = some new) : new.entries = entries := by
  have inside := (Array.getElem?_eq_some_iff.mp (getElem?_contents found)).1
  have stored := getElem?_contents there
  rw [changed, Array.getElem?_setIfInBounds_self_of_lt inside] at stored
  exact (Option.some.inj stored).symm

end Store

namespace Intake

variable {intake : Intake} {taken : List Publish} {message : Publish} {store : Store}

/-- The notice that the queue gave up a message. -/
def notice (intake : Intake) (message : Publish) : Notice :=
  .queueFull intake.queue.id message.topic message.qos

/-- In the store, the queue holds what it keeps of what it took. -/
def Holds (intake : Intake) (taken : List Publish) (store : Store) : Prop :=
  ∀ ⦃bucket : Bucket⦄, store.buckets[intake.index]? = some bucket →
    intake.Stocks taken bucket.entries

/-- The queue took a message, and gave up that one, an older one or none. -/
structure Takes (intake : Intake) (store : Store) (taken : List Publish) (message : Publish)
    (after : Store) : Prop where
  holds : intake.Holds (taken ++ [message]) after
  notices : after.outbox.notices = store.outbox.notices ++
    (intake.admitted taken message).2.toList.map intake.notice
  released : after.outbox.released = store.outbox.released ++
    (intake.admitted taken message).2.toList.map Publish.payload
  discarded : after.stats.discarded = store.stats.discarded +
    .ofNat (intake.admitted taken message).2.toList.length

theorem takes_turnAway (holds : intake.Holds taken store)
    (full : intake.admitted taken message =
      (intake.kept taken (.of message.qos), some message)) :
    intake.Takes store taken message (store.turnAway intake.queue message) := by
  constructor
  · intro bucket found
    exact (holds found).keep (congrArg Prod.fst full)
  · rw [full]
    rfl
  · rw [full]
    rfl
  · rw [full]
    rfl

/-- A message that was put at the end is taken if what gives way is what the policy gives up. -/
theorem takes_of_enqueued {bucket : Bucket} {evicted : Option EntryKey}
    {gone : Option StoredPublish} {after : Store}
    (found : store.buckets[intake.index]? = some bucket)
    (enqueued : store.Enqueued intake.queue message evicted intake.index bucket gone after)
    (stocks : intake.Stocks (taken ++ [message]) (Change.actAll bucket.entries
      (Store.arrival evicted ⟨intake.queue, store.sequence.next⟩ message)))
    (gives : gone = (intake.admitted taken message).2.map .ofPublish)
    (displaced : Change.displacedAll bucket.entries
        (Store.arrival evicted ⟨intake.queue, store.sequence.next⟩ message) =
      (intake.admitted taken message).2.toList.map Publish.entry) :
    intake.Takes store taken message after := by
  subst gives
  constructor
  · intro new there
    rw [Store.entries_of_contents found enqueued.contents there]
    exact stocks
  · rw [enqueued.notices]
    cases (intake.admitted taken message).2 <;> rfl
  · rw [enqueued.released, displaced]
    cases (intake.admitted taken message).2 <;> rfl
  · rw [enqueued.discarded]
    cases (intake.admitted taken message).2 <;> rfl

section Serve
variable {bucket : Bucket} (kept : store.Kept) (under : store.Under store.sequence.next.toNat)
  (opened : store.bucket intake.index = .ok bucket) (stocks : intake.Stocks taken bucket.entries)
  (within : store.Within (intake.request message))
include kept under opened stocks within

theorem takes_accepted
    (room : Admission.decide (bucket.classSize intake.queue (.of message.qos)) intake.limit
      intake.policy = .accept)
    (answered : (store.enqueue intake.queue message none intake.index bucket).1 = .ok ()) :
    intake.Takes store taken message
      (store.enqueue intake.queue message none intake.index bucket).2 := by
  have found := Store.getElem?_of_bucket opened
  have its := kept found
  have planned : Line.accept (bucket.queueEntries intake.queue)
      ⟨intake.queue, store.sequence.next⟩ message intake.limit intake.policy =
        ⟨true, Store.arrival none ⟨intake.queue, store.sequence.next⟩ message,
          .done (.ok ())⟩ := by
    rw [Line.accept, ← its.agrees.indexed.faithful.counts, room]
  have enqueued := Store.enqueued_of_room its opened
    (Store.room_of_accept opened its.agrees within planned) answered
  rw [stocks.classSize_eq its.agrees] at room
  have admitted : intake.admitted taken message =
      (intake.kept taken (.of message.qos) ++ [message], none) := by
    simp only [Intake.admitted, DiscardPolicy.receive, room]
  have fresh : bucket.entries.get? ⟨intake.queue, store.sequence.next⟩ = none :=
    (under found).fresh _ (Nat.le_refl _)
  refine takes_of_enqueued found enqueued ?_ ?_ ?_
  · refine stocks.insert rfl (fun other entry stored => ?_) (congrArg Prod.fst admitted)
    exact UInt64.lt_iff_toNat_lt.mpr ((under found).stored stored)
  · rw [admitted]
    rfl
  · rw [admitted, Store.displaced_arrival_none fresh]
    rfl

theorem takes_evicting {old : EntryKey}
    (full : Admission.decide (bucket.classSize intake.queue (.of message.qos)) intake.limit
      intake.policy = .evictOldest)
    (oldest : bucket.oldestEvictable? intake.queue (.of message.qos) = some old)
    (answered : (store.enqueue intake.queue message (some old) intake.index bucket).1 = .ok ()) :
    intake.Takes store taken message
      (store.enqueue intake.queue message (some old) intake.index bucket).2 := by
  have found := Store.getElem?_of_bucket opened
  have its := kept found
  have planned : Line.accept (bucket.queueEntries intake.queue)
      ⟨intake.queue, store.sequence.next⟩ message intake.limit intake.policy =
        ⟨true, Store.arrival (some old) ⟨intake.queue, store.sequence.next⟩ message,
          .done (.ok ())⟩ := by
    obtain ⟨e, first, rfl⟩ := Option.map_eq_some_iff.mp oldest
    simp only [Line.accept, ← its.agrees.indexed.faithful.counts, full, first]
  have enqueued := Store.enqueued_of_room its opened
    (Store.room_of_accept opened its.agrees within planned) answered
  -- what gives way is the first of the messages that are kept
  rw [stocks.classSize_eq its.agrees] at full
  rw [stocks.oldestEvictable?_eq] at oldest
  obtain ⟨e, first, rfl⟩ := Option.map_eq_some_iff.mp oldest
  obtain ⟨rest, line⟩ := List.head?_eq_some_iff.mp first
  have all := stocks (.of message.qos)
  rw [line] at all
  cases messages : intake.kept taken (.of message.qos) with
  | nil =>
    rw [messages] at all
    cases all
  | cons victim others =>
    rw [messages] at all full
    have entry : e.2 = victim.entry := (List.cons.inj all).1
    have admitted : intake.admitted taken message = (others ++ [message], some victim) := by
      simp only [Intake.admitted, messages, DiscardPolicy.receive, full]
    have member : e ∈ Line.ofClass (bucket.entries.line intake.queue) (.of message.qos) :=
      line ▸ List.mem_cons_self
    have stored : bucket.entries.get? e.1 = some victim.entry :=
      entry ▸ Table.mem_bindings_iff.mp (List.mem_filter.mp (List.mem_filter.mp member).1).1
    have fresh : bucket.entries.get? ⟨intake.queue, store.sequence.next⟩ = none :=
      (under found).fresh _ (Nat.le_refl _)
    refine takes_of_enqueued found enqueued ?_ ?_ ?_
    · refine stocks.evict rfl (fun other entry stored => ?_) line ?_
      · exact UInt64.lt_iff_toNat_lt.mpr ((under found).stored stored)
      · rw [messages]
        exact congrArg Prod.fst admitted
    · rw [admitted, Option.bind_some, stored]
      rfl
    · rw [admitted, Store.displaced_arrival stored fresh]
      rfl

end Serve

/-- A message that the queue took, as its answer says. -/
theorem takes_of_ok (kept : store.Kept) (under : store.Under store.sequence.next.toNat)
    (holds : intake.Holds taken store) (within : store.Within (intake.request message))
    (answered : (store.serve (intake.request message)).1 = .done (.ok ())) :
    intake.Takes store taken message (store.serve (intake.request message)).2 := by
  have answered : (store.addPublish intake.queue message intake.limit intake.policy
      intake.index).1 = .ok () := Answer.done.inj answered
  change intake.Takes store taken message (store.addPublish intake.queue message intake.limit
    intake.policy intake.index).2
  have adds := Store.adds_addPublish store intake.queue message intake.limit intake.policy
    intake.index
  generalize store.addPublish intake.queue message intake.limit intake.policy intake.index =
    served at adds answered ⊢
  cases adds with
  | refused => cases answered
  | accepted opened room =>
    have stocks := holds (Store.getElem?_of_bucket opened)
    exact takes_accepted kept under opened stocks within room answered
  | evicting opened full oldest =>
    have stocks := holds (Store.getElem?_of_bucket opened)
    exact takes_evicting kept under opened stocks within full oldest answered
  | @turnedAway bucket opened full =>
    have found := Store.getElem?_of_bucket opened
    have stocks := holds found
    refine takes_turnAway holds ?_
    rw [stocks.classSize_eq (kept found).agrees, stocks.oldestEvictable?_eq] at full
    rcases full with full | ⟨full, none⟩
    · simp only [Intake.admitted, DiscardPolicy.receive, full]
    · have nothing : Line.ofClass (bucket.entries.line intake.queue) (.of message.qos) = [] :=
        List.head?_eq_none_iff.mp (Option.map_eq_none_iff.mp none)
      have empty := (stocks.length_ofClass (.of message.qos)).symm
      rw [nothing, List.length_nil, List.length_eq_zero_iff] at empty
      simp only [Intake.admitted, DiscardPolicy.receive, full]
      rw [empty]

/-- Why a message is refused: the store is closed, there is no such bucket, a text is too long to be
written, or the journal fails. -/
inductive Refusal (intake : Intake) (message : Publish) : QueueFault → Prop
  | closed : Refusal intake message (.storage .closed)
  | outside (count : Nat) (outside : count ≤ intake.index) :
      Refusal intake message (.invalidBucket intake.index count)
  | long (field : Batch.Field) (long : ¬ Batch.Fits
        (Batch.changeTexts (.insert ⟨intake.queue, 0⟩ message.entry))) :
      Refusal intake message (.storage (.corruption (.batch (.tooLong field))))
  | journal {fault : StorageFault} (its : fault.ofJournal = true) :
      Refusal intake message (.storage fault)

end Intake

/-- Changes are refused by the journal, or because a text is too long. -/
theorem Bucket.refusal?_cases {bucket : Bucket} {changes : List Change} {fault : StorageFault}
    (refused : bucket.refusal? changes = some fault) :
    fault.ofJournal = true ∨ ¬ Batch.Fits (changes.flatMap Batch.changeTexts) ∧
      ∃ field, fault = .corruption (.batch (.tooLong field)) := by
  by_cases short : Batch.Fits (changes.flatMap Batch.changeTexts)
  · exact .inl (ofJournal_of_refusal? short refused)
  · refine .inr ⟨short, ?_⟩
    cases first : Batch.overlong? (changes.flatMap Batch.changeTexts) with
    | none => exact absurd (Batch.overlong?_eq_none_iff.mp first) short
    | some field =>
      have failed : Batch.encode changes = .error (.tooLong field) := by
        rw [Batch.encode, first]
      unfold refusal? at refused
      split at refused
      · cases refused
      · rw [failed] at refused
        exact ⟨field, (Option.some.inj refused).symm⟩

/-- What is planned for a message writes the id of its queue and the texts of the message. -/
theorem Line.short_accept {line : Line} {next : EntryKey} {message : Publish}
    (own : ∀ e ∈ line, e.1.queue = next.queue)
    (short : Batch.Fits (Batch.changeTexts (.insert next message.entry))) (limit : Nat)
    (policy : DiscardPolicy) :
    Batch.Fits ((line.accept next message limit policy).changes.flatMap Batch.changeTexts) := by
  rcases line.accept_cases next message limit policy with idle | ⟨evicted, stored, arrives⟩
  · rw [idle]
    exact fun text member => nomatch member
  · rw [arrives]
    intro text member
    obtain ⟨change, made, its⟩ := List.mem_flatMap.mp member
    rcases List.mem_append.mp made with delete | new
    · obtain ⟨old, evicts, rfl⟩ := List.mem_map.mp (Option.toList_map ▸ delete)
      obtain ⟨entry, listed⟩ := stored old (Option.mem_toList.mp evicts)
      obtain rfl := List.mem_singleton.mp its
      exact short _ (own _ listed ▸ List.mem_cons_self)
    · obtain rfl := List.mem_singleton.mp new
      exact short text its

namespace Intake

variable {intake : Intake} {taken : List Publish} {message : Publish} {store : Store}

theorem refusal_of_bucket {fault : QueueFault}
    (refused : store.bucket intake.index = .error fault) : intake.Refusal message fault := by
  unfold Store.bucket at refused
  split at refused
  · cases refused
    exact .closed
  · split at refused
    · cases refused
    · rename_i absent
      cases refused
      exact .outside _ (Array.getElem?_eq_none_iff.mp absent)

/-- A message that was refused, as its answer says. -/
theorem refusal_of_error {fault : QueueFault} (kept : store.Kept)
    (within : store.Within (intake.request message))
    (answered : (store.serve (intake.request message)).1 = .done (.error fault)) :
    intake.Refusal message fault := by
  cases opened : store.bucket (intake.request message).index with
  | error cause =>
    obtain ⟨outbox, served⟩ := Store.serve_of_closed opened rfl
    rw [served] at answered
    obtain rfl : cause = fault := Except.error.inj (Answer.done.inj answered)
    exact refusal_of_bucket opened
  | ok bucket =>
    have agrees := (kept (Store.getElem?_of_bucket opened)).agrees
    let next : EntryKey := ⟨intake.queue, store.sequence.next⟩
    obtain ⟨plan, planned⟩ : ∃ plan, plan = (intake.request message).plan
      store.settings.overflow (bucket.queueEntries intake.queue) next := ⟨_, rfl⟩
    have serves := Store.serves_of_room opened agrees rfl planned.symm
      (Store.room_of_within opened agrees rfl planned.symm within)
    generalize store.serve (intake.request message) = served at serves answered
    cases serves with
    | served taken =>
      rcases Line.accept_cases (bucket.queueEntries intake.queue) next message intake.limit
        intake.policy with idle | ⟨evicted, -, arrives⟩
      · rw [planned.trans idle] at answered
        cases answered
      · rw [planned.trans arrives] at answered
        cases answered
    | @refused cause _ _ refused =>
      obtain rfl : .storage cause = fault := Except.error.inj (Answer.done.inj answered)
      rcases Bucket.refusal?_cases refused with its | ⟨long, field, rfl⟩
      · exact .journal its
      · refine .long field fun short => long ?_
        have own : ∀ e ∈ bucket.queueEntries intake.queue, e.1.queue = next.queue :=
          fun e listed => (Store.mem_queueEntries.mp listed).2
        rw [planned]
        exact Line.short_accept own short _ _

/-! What comes between -/

/-- The request is about another queue, or the same in another bucket, and does not clean up the
bucket of this one. -/
def Spares (intake : Intake) : Request → Prop
  | .cleanUp _ index => index ≠ intake.index
  | request => request.queue? = some intake.queue → request.index ≠ intake.index

namespace Holds

variable {after : Store} {index : Nat} {request : Request} (holds : intake.Holds taken store)
include holds

theorem of_contents_eq (same : after.contents = store.contents) : intake.Holds taken after := by
  intro new there
  have stored := Store.getElem?_contents there
  rw [same, Store.contents, Array.getElem?_map] at stored
  obtain ⟨bucket, found, equal⟩ := Option.map_eq_some_iff.mp stored
  exact equal ▸ holds found

/-- A bucket was replaced that is another one, or has the same in the queue. -/
theorem of_set {bucket left : Bucket} (found : store.buckets[index]? = some bucket)
    (replaced : after.buckets = store.buckets.setIfInBounds index left)
    (same : index = intake.index →
      left.entries.line intake.queue = bucket.entries.line intake.queue) :
    intake.Holds taken after := by
  intro new there
  rw [replaced, Array.getElem?_setIfInBounds] at there
  split at there
  · rename_i here
    subst here
    obtain ⟨inside, -⟩ := Array.getElem?_eq_some_iff.mp found
    rw [if_pos inside] at there
    cases there
    intro messageClass
    rw [same rfl]
    exact holds found messageClass
  · exact holds there

/-- Requests about other queues, and about this one in other buckets, make no difference. -/
theorem serve (kept : store.Kept) (within : store.Within request) (spares : intake.Spares request) :
    intake.Holds taken (store.serve request).2 := by
  cases about : request.queue? with
  | none =>
    cases request with
    | close => exact holds.of_contents_eq (Store.close_silent store).1
    | cleanUp now index =>
      have swept := congrArg Prod.snd (Store.cleanUp_eq_sweepOf kept now index)
      change intake.Holds taken (store.cleanUp now index).2
      rw [swept]
      intro new there
      refine holds ?_
      rwa [Store.swept, Array.getElem?_setIfInBounds_ne spares] at there
    | _ => cases about
  | some queue =>
    have apart : queue = intake.queue → request.index ≠ intake.index := by
      rintro rfl
      cases request with
      | cleanUp | close => cases about
      | _ => exact spares about
    cases opened : store.bucket request.index with
    | error fault =>
      obtain ⟨outbox, served⟩ := Store.serve_of_closed opened about
      rw [served]
      exact holds.of_contents_eq rfl
    | ok bucket =>
      have found := Store.getElem?_of_bucket opened
      have its := kept found
      have coherent : bucket.Coherent := ⟨its.agrees, its.sound⟩
      have serves := Store.serves_of_room opened its.agrees about rfl
        (Store.room_of_within opened its.agrees about rfl within)
      have fits : (request.plan store.settings.overflow (bucket.queueEntries queue)
          ⟨queue, store.sequence.next⟩).Fits bucket.entries queue ⟨queue, store.sequence.next⟩ :=
        coherent.fits _ about
      have own := fits.own rfl
      generalize store.serve request = served at serves ⊢
      cases serves with
      | refused => exact holds.of_contents_eq (Store.contents_set_of_entries_eq found rfl rfl)
      | served taken =>
        refine holds.of_set found rfl fun here => ?_
        rw [(Bucket.applyAll_frame _ _ _).1]
        refine Table.line_actAll_of_ne fun change member => ?_
        rw [own change member]
        exact fun same => apart same here

end Holds

end Intake

end DeliveryQueue
