import DeliveryQueue.Proofs.Plans

/-!
Serving a request is carrying out its plan, as long as the budget holds (`Store.follows_serve`).
-/
namespace DeliveryQueue

theorem map_unit (result : Except QueueFault Unit) : (result.map fun () => ()) = result := by
  cases result <;> rfl

namespace Store

variable {store after : Store} {index : Nat} {bucket : Bucket} {queue : QueueKey}

/-- Draw a number, if the plan says so, and commit the changes. -/
def carryOut (store : Store) (index : Nat) (bucket : Bucket) (plan : Plan) :
    Except QueueFault Unit × Store :=
  { store with sequence := if plan.draws then store.sequence.advance else store.sequence }.commit
    index bucket plan.changes

/-- A request is answered as planned and leaves what its plan leaves, counters and outbox aside; or
its changes are not committed. -/
inductive Follows (store : Store) (index : Nat) (bucket : Bucket) (request : Request)
    (plan : Plan) : Answer × Store → Prop
  | fails {fault : QueueFault} {after : Store}
      (failed : store.carryOut index bucket plan = (.error fault, after)) :
      Follows store index bucket request plan (request.refusal fault, after)
  | works {after : Store} (done : store.carryOut index bucket plan = (.ok (), after))
      (stats : Stats) (outbox : Outbox) :
      Follows store index bucket request plan (plan.answer, { after with stats, outbox })

theorem commit_nil (found : store.buckets[index]? = some bucket) :
    store.commit index bucket [] = (.ok (), store) := by
  simp [commit, Bucket.commit, releaseEntries, record, setIfInBounds_self found]

namespace Follows

variable {request : Request}

theorem idle (found : store.buckets[index]? = some bucket) (answer : Answer) (stats : Stats)
    (outbox : Outbox) :
    Follows store index bucket request (.idle answer) (answer, { store with stats, outbox }) := by
  have done : store.carryOut index bucket (.idle answer) = (.ok (), store) := commit_nil found
  exact .works done stats outbox

/-- A single commit whose answer says no more than that it went well. -/
theorem commit {α : Type} {value : α} {changes : List Change} (wrap : Except QueueFault α → Answer)
    (refusal : ∀ fault, request.refusal fault = wrap (.error fault)) :
    Follows store index bucket request ⟨false, changes, wrap (.ok value)⟩
      (wrap ((store.commit index bucket changes).1.map fun () => value),
        (store.commit index bucket changes).2) := by
  have same : store.carryOut index bucket ⟨false, changes, wrap (.ok value)⟩ =
      store.commit index bucket changes := rfl
  cases committed : store.commit index bucket changes with
  | mk answer after =>
    rw [committed] at same
    cases answer with
    | error fault => exact refusal fault ▸ .fails same
    | ok => exact .works same after.stats after.outbox

theorem enqueuePubrel {α : Type} {value : α} (wrap : Except QueueFault α → Answer)
    (refusal : ∀ fault, request.refusal fault = wrap (.error fault)) (id : UInt16) :
    Follows store index bucket request
      ⟨true, [.insert ⟨queue, store.sequence.next⟩ (.pubrel id)], wrap (.ok value)⟩
      (wrap ((store.enqueuePubrel queue id index bucket).1.map fun () => value),
        (store.enqueuePubrel queue id index bucket).2) := by
  have same : store.carryOut index bucket
      ⟨true, [.insert ⟨queue, store.sequence.next⟩ (.pubrel id)], wrap (.ok value)⟩ =
        store.enqueuePubrel queue id index bucket := rfl
  cases committed : store.enqueuePubrel queue id index bucket with
  | mk answer after =>
    rw [committed] at same
    cases answer with
    | error fault => exact refusal fault ▸ .fails same
    | ok => exact .works same after.stats after.outbox

end Follows

/-! Adding -/

theorem enforceBudget_of_room (room : store.budget.exceeded = false) :
    store.enforceBudget = store := by
  unfold enforceBudget
  cases store.qos0Count with
  | zero => rfl
  | succ => simp [evictQos0, room]

theorem yielded_eq (store : Store) (queue : QueueKey) (gone : Option StoredPublish) :
    ∃ stats outbox, store.yielded queue gone = { store with stats, outbox } := by
  cases gone with
  | none => exact ⟨store.stats, store.outbox, rfl⟩
  | some old => exact ⟨_, _, rfl⟩

theorem follows_enqueue {message : Publish} {evicted : Option EntryKey} {plan : Plan}
    (planned : plan =
      ⟨true, arrival evicted ⟨queue, store.sequence.next⟩ message, .done (.ok ())⟩)
    (room : ∀ after, store.carryOut index bucket plan = (.ok (), after) →
      after.budget.exceeded = false) (limit : Nat) (policy : DiscardPolicy) :
    Follows store index bucket (.add queue (.publish message) limit policy index) plan
      ((store.enqueue queue message evicted index bucket).map .done id) := by
  have same : store.carryOut index bucket plan =
      { store with sequence := store.sequence.advance }.commit index bucket
        (arrival evicted ⟨queue, store.sequence.next⟩ message) := by rw [planned]; rfl
  have answers : plan.answer = .done (.ok ()) := by rw [planned]
  have enqueues := enqueues_enqueue store queue message evicted index bucket
  generalize store.enqueue queue message evicted index bucket = served at enqueues ⊢
  cases enqueues with
  | fails failed => exact .fails (same.trans failed)
  | @arrives after last done left =>
    have done := same.trans done
    obtain ⟨stats, outbox, last_eq⟩ := yielded_eq after queue
      (evicted.bind fun old => (bucket.entries.get? old).bind Entry.message?)
    have fine : last.budget.exceeded = false := by
      rw [left, last_eq]
      exact room after done
    rw [enforceBudget_of_room fine, ite_self, left, last_eq]
    have works : Follows store index bucket (.add queue (.publish message) limit policy index) plan
        (plan.answer, { after with stats, outbox }) := .works done stats outbox
    rwa [answers] at works

theorem follows_addPublish (opened : store.bucket index = .ok bucket) (agrees : bucket.Agrees)
    {message : Publish} {limit : Nat} {policy : DiscardPolicy} {plan : Plan}
    (planned : plan = Line.accept (bucket.queueEntries queue) ⟨queue, store.sequence.next⟩ message
      limit policy)
    (room : ∀ after, store.carryOut index bucket plan = (.ok (), after) →
      after.budget.exceeded = false) :
    Follows store index bucket (.add queue (.publish message) limit policy index) plan
      ((store.addPublish queue message limit policy index).map .done id) := by
  have found := getElem?_of_bucket opened
  have count := agrees.indexed.faithful.counts queue (.of message.qos)
  have adds := adds_addPublish store queue message limit policy index
  generalize store.addPublish queue message limit policy index = served at adds ⊢
  cases adds with
  | refused closed => cases closed.symm.trans opened
  | accepted again free =>
    cases again.symm.trans opened
    refine follows_enqueue ?_ room limit policy
    rw [planned, Line.accept, ← count, free]
  | @evicting _ old again full oldest =>
    cases again.symm.trans opened
    obtain ⟨⟨_, entry⟩, first, rfl⟩ := Option.map_eq_some_iff.mp oldest
    refine follows_enqueue ?_ room limit policy
    simp only [planned, Line.accept, ← count, full, first]
  | turnedAway again full =>
    cases again.symm.trans opened
    have idle : plan = .idle (.done (.ok ())) := by
      rcases full with full | ⟨full, none⟩
      · simp only [planned, Line.accept, ← count, full]
      · have nobody := Option.map_eq_none_iff.mp none
        simp only [planned, Line.accept, ← count, full, nobody]
    rw [idle]
    exact .idle found _ _ _

theorem follows_addPubrel (opened : store.bucket index = .ok bucket) (agrees : bucket.Agrees)
    (packetId : UInt16) (limit : Nat) (policy : DiscardPolicy) :
    let request := Request.add queue (.pubrel packetId) limit policy index
    Follows store index bucket request
      (request.plan store.settings.overflow (bucket.queueEntries queue)
        ⟨queue, store.sequence.next⟩)
      ((store.addPubrel queue packetId index).map .done id) := by
  intro request
  have held := agrees.inFlightKey?_eq_carrier? queue packetId
  have adds := adds_addPubrel store queue packetId index
  generalize store.addPubrel queue packetId index = served at adds ⊢
  cases adds with
  | refused closed => cases closed.symm.trans opened
  | known again there =>
    cases again.symm.trans opened
    obtain ⟨e, carrier, _⟩ := Option.map_eq_some_iff.mp (held.symm.trans there)
    simp only [request, Request.plan, carrier]
    exact .idle (getElem?_of_bucket opened) _ _ _
  | fresh again free =>
    cases again.symm.trans opened
    have nobody := Option.map_eq_none_iff.mp (held.symm.trans free)
    simp only [request, Request.plan, nobody]
    have follows : Follows store index bucket request
        ⟨true, [.insert ⟨queue, store.sequence.next⟩ (.pubrel packetId)], .done (.ok ())⟩ _ :=
      .enqueuePubrel .done (fun _ => rfl) packetId
    rwa [map_unit] at follows

/-! Reading -/

theorem follows_readNew (opened : store.bucket index = .ok bucket) (agrees : bucket.Agrees)
    (pool : List UInt16) (byteLimit now : UInt64) :
    Follows store index bucket (.readNew queue pool byteLimit now index)
      (Line.readNew (bucket.queueEntries queue) store.settings.overflow queue.shared pool byteLimit
        now) ((store.readNew queue pool byteLimit now index).map .messages id) := by
  have found := getElem?_of_bucket opened
  have reads := reads_readNew store queue pool byteLimit now index
  generalize store.readNew queue pool byteLimit now index = served at reads ⊢
  cases reads with
  | refused closed => cases closed.symm.trans opened
  | unknown again uncounted =>
    cases again.symm.trans opened
    rw [agrees.indexed.faithful.empty queue uncounted]
    exact .idle found _ _ _
  | panics again counted overflows =>
    cases again.symm.trans opened
    rw [reading, agrees.free_eq counted] at overflows
    simp only [Line.readNew, overflows, if_true]
    exact .idle found _ _ _
  | fails again counted calm failed =>
    cases again.symm.trans opened
    rw [reading, agrees.free_eq counted] at calm failed
    simp only [Line.readNew, calm, Bool.false_eq_true, if_false]
    exact .fails failed
  | hands again counted calm done =>
    cases again.symm.trans opened
    rw [reading, agrees.free_eq counted] at calm done ⊢
    simp only [Line.readNew, calm, Bool.false_eq_true, if_false]
    refine .works ?_ _ _
    exact done

/-! Settling -/

theorem follows_replace (opened : store.bucket index = .ok bucket) (agrees : bucket.Agrees)
    (client : String) (packetId : UInt16) :
    Follows store index bucket (.replace client packetId index)
      (Line.replace (bucket.queueEntries ⟨client, false⟩) ⟨⟨client, false⟩, store.sequence.next⟩
        packetId) ((store.replace client packetId index).map .uniqueId id) := by
  have found := getElem?_of_bucket opened
  have held := agrees.inFlightKey?_eq_carrier? ⟨client, false⟩ packetId
  have replaces := replaces_replace store client packetId index
  generalize store.replace client packetId index = served at replaces ⊢
  cases replaces with
  | refused closed => cases closed.symm.trans opened
  | fresh again free =>
    cases again.symm.trans opened
    have nobody := Option.map_eq_none_iff.mp (held.symm.trans free)
    rw [Line.replace, nobody]
    exact .enqueuePubrel .uniqueId (fun _ => rfl) packetId
  | known again there other =>
    cases again.symm.trans opened
    obtain ⟨⟨key, entry⟩, carrier, rfl⟩ := Option.map_eq_some_iff.mp (held.symm.trans there)
    have stored := (mem_queueEntries.mp (List.mem_of_find?_eq_some carrier)).1
    cases entry with
    | publish stored' => exact absurd stored (other stored')
    | pubrel _ | taken _ =>
      rw [Line.replace, carrier]
      exact .idle found _ _ _
  | @releases _ key stored again there message =>
    cases again.symm.trans opened
    obtain ⟨⟨_, entry⟩, carrier, rfl⟩ := Option.map_eq_some_iff.mp (held.symm.trans there)
    have its := (mem_queueEntries.mp (List.mem_of_find?_eq_some carrier)).1
    cases its.symm.trans message
    rw [Line.replace, carrier]
    exact .commit .uniqueId fun _ => rfl

theorem follows_remove (opened : store.bucket index = .ok bucket) (agrees : bucket.Agrees)
    (client : String) (packetId : UInt16) (expected : Option String) :
    Follows store index bucket (.remove client packetId expected index)
      (Line.remove (bucket.queueEntries ⟨client, false⟩) packetId expected)
      ((store.remove client packetId expected index).map .uniqueId id) := by
  have found := getElem?_of_bucket opened
  have held := agrees.inFlightKey?_eq_carrier? ⟨client, false⟩ packetId
  have removes := removes_remove store client packetId expected index
  generalize store.remove client packetId expected index = served at removes ⊢
  cases removes with
  | refused closed => cases closed.symm.trans opened
  | unknown again free =>
    cases again.symm.trans opened
    have nobody := Option.map_eq_none_iff.mp (held.symm.trans free)
    rw [Line.remove, nobody]
    exact .idle found _ _ _
  | unexpected again there other =>
    cases again.symm.trans opened
    obtain ⟨⟨key, entry⟩, carrier, rfl⟩ := Option.map_eq_some_iff.mp (held.symm.trans there)
    have stored := (mem_queueEntries.mp (List.mem_of_find?_eq_some carrier)).1
    rw [stored, Option.bind_some] at other
    simp only [Line.remove, carrier]
    rw [if_pos other]
    exact .idle found _ _ _
  | removes again there wanted =>
    cases again.symm.trans opened
    obtain ⟨⟨key, entry⟩, carrier, rfl⟩ := Option.map_eq_some_iff.mp (held.symm.trans there)
    have stored := (mem_queueEntries.mp (List.mem_of_find?_eq_some carrier)).1
    rw [stored, Option.bind_some] at wanted
    rw [stored, Option.bind_some]
    simp only [Line.remove, carrier]
    rw [if_neg wanted]
    exact .commit .uniqueId fun _ => rfl

theorem follows_changeFirst (opened : store.bucket index = .ok bucket) (request : Request)
    (refusal : ∀ fault, request.refusal fault = .found (.error fault)) (fits : Entry → Bool)
    (change : EntryKey → Change) :
    Follows store index bucket request
      (Line.changeFirst (bucket.queueEntries queue) fits change)
      ((store.changeFirst queue fits change index).map .found id) := by
  have changes := changes_changeFirst store queue fits change index
  generalize store.changeFirst queue fits change index = served at changes ⊢
  cases changes with
  | refused closed => cases closed.symm.trans opened
  | missing again unfit =>
    cases again.symm.trans opened
    have nobody : ((bucket.queueEntries queue).find? fun e => fits e.2) = none :=
      List.find?_eq_none.mpr fun e member => by simp [unfit e member]
    rw [Line.changeFirst, nobody]
    exact .idle (getElem?_of_bucket opened) _ _ _
  | changes again first =>
    cases again.symm.trans opened
    rw [Line.changeFirst, first]
    exact .commit .found refusal

theorem follows_deleteEntries (opened : store.bucket index = .ok bucket) (request : Request)
    (refusal : ∀ fault, request.refusal fault = .done (.error fault)) (fits : Entry → Bool) :
    Follows store index bucket request (Line.deleteEntries (bucket.queueEntries queue) fits)
      ((store.deleteEntries queue fits index).map .done id) := by
  have deletes := deletes_deleteEntries store queue fits index
  generalize store.deleteEntries queue fits index = served at deletes ⊢
  cases deletes with
  | refused closed => cases closed.symm.trans opened
  | deletes again =>
    cases again.symm.trans opened
    have follows : Follows store index bucket request
        (Line.deleteEntries (bucket.queueEntries queue) fits) _ := .commit .done refusal
    rwa [map_unit] at follows

/-- Serving a request about a queue is carrying out its plan, as long as the budget holds. -/
theorem follows_serve {request : Request} (opened : store.bucket request.index = .ok bucket)
    (agrees : bucket.Agrees) (its : request.queue? = some queue)
    (room : ∀ after, store.carryOut request.index bucket
      (request.plan store.settings.overflow (bucket.queueEntries queue)
        ⟨queue, store.sequence.next⟩) = (.ok (), after) → after.budget.exceeded = false) :
    Follows store request.index bucket request
      (request.plan store.settings.overflow (bucket.queueEntries queue)
        ⟨queue, store.sequence.next⟩) (store.serve request) := by
  have found := getElem?_of_bucket opened
  cases request with
  | add _ message limit policy index =>
    cases its
    cases message with
    | publish message => exact follows_addPublish opened agrees rfl room
    | pubrel packetId => exact follows_addPubrel opened agrees packetId limit policy
  | readNew _ pool byteLimit now index =>
    cases its
    exact follows_readNew opened agrees pool byteLimit now
  | readInFlight _ maxCount byteLimit index =>
    cases its
    have answer : store.readInFlight queue maxCount byteLimit index =
        Line.readInFlight (bucket.queueEntries queue) store.settings.overflow maxCount
          byteLimit := by
      rw [readInFlight, show store.bucket index = .ok bucket from opened]
      rfl
    rw [serve, answer]
    exact .idle found _ _ _
  | replace client packetId index =>
    cases its
    exact follows_replace opened agrees client packetId
  | remove client packetId expected index =>
    cases its
    exact follows_remove opened agrees client packetId expected
  | removeShared group uniqueId index =>
    cases its
    exact follows_changeFirst opened (.removeShared group uniqueId index) (fun _ => rfl)
      (fun entry => entry.uniqueId? = some uniqueId) .delete
  | giveBack group uniqueId index =>
    cases its
    exact follows_changeFirst opened (.giveBack group uniqueId index) (fun _ => rfl)
      (isTaken uniqueId) (.mark · false)
  | removeQos0 _ index =>
    cases its
    exact follows_deleteEntries opened (.removeQos0 queue index) (fun _ => rfl)
      fun entry => entry.messageClass = .qos0
  | clear _ index =>
    cases its
    exact follows_deleteEntries opened (.clear queue index) (fun _ => rfl) fun _ => true
  | size _ index =>
    cases its
    have answer : store.size queue index = .ok (bucket.queueEntries queue).length := by
      rw [size, show store.bucket index = .ok bucket from opened]
      exact congrArg _ (agrees.size_eq_length queue)
    rw [serve, answer]
    exact .idle found _ _ _
  | cleanUp | close => cases its

/-- Where there is no bucket, or the store is closed, a request is refused. -/
theorem serve_of_closed {request : Request} {fault : QueueFault}
    (closed : store.bucket request.index = .error fault) (its : request.queue? = some queue) :
    ∃ outbox, store.serve request = (request.refusal fault, { store with outbox }) := by
  cases request with
  | cleanUp | close => cases its
  | add _ message =>
    cases message <;> simp only [Request.index] at closed <;>
      simp only [serve, add, addPublish, addPubrel, closed] <;> exact ⟨_, rfl⟩
  | _ =>
    simp only [Request.index] at closed
    simp only [serve, readNew, readInFlight, replace, remove, removeShared, giveBack, changeFirst,
      removeQos0, clear, deleteEntries, size, closed]
    exact ⟨_, rfl⟩

end Store

end DeliveryQueue
