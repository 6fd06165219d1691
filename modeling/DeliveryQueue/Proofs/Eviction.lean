import DeliveryQueue.Proofs.Ballast
import DeliveryQueue.Proofs.Failure

/-!
The sweep of the budget after a message of QoS 0 came in (`Store.add_evicts_oldest`). It drops the
shortest front part of all messages of QoS 0, from the oldest on, that brings the budget back to its
limit, unless a journal does not take a deletion: there it ends.
-/
namespace DeliveryQueue

open Std

namespace Ballast

/-- What is announced when messages are dropped one after the other; each notice tells what the
budget was at just before. -/
def announced (limit : UInt64) : UInt64 → List Ballast → List Notice
  | _, [] => []
  | used, b :: rest =>
    .qos0Memory b.key.queue.shared b.key.queue.id b.message.topic b.message.qos used limit ::
      announced limit (saturatingSub used b.message.size) rest

/-- Dropping these brings the budget back to its limit, and dropping fewer of them does not. -/
structure Shortest (budget : Budget) (victims : List Ballast) : Prop where
  enough : budget.used.toNat - bytes victims ≤ budget.limit.toNat
  needed : ∀ fewer, fewer <+: victims → fewer ≠ victims →
    budget.limit.toNat < budget.used.toNat - bytes fewer

/-- The front part of a line that has to go. -/
def victims (limit used : Nat) : List Ballast → List Ballast
  | [] => []
  | b :: rest =>
    if used ≤ limit then [] else b :: victims limit (used - b.message.size.toNat) rest

theorem bytes_cons (b : Ballast) (rest : List Ballast) :
    bytes (b :: rest) = b.message.size.toNat + bytes rest := List.sum_cons

theorem victims_prefix (limit used : Nat) (line : List Ballast) :
    victims limit used line <+: line := by
  induction line generalizing used with
  | nil => exact List.prefix_refl _
  | cons b rest ih =>
    unfold victims
    split
    · exact List.nil_prefix
    · exact (List.prefix_cons_inj b).mpr (ih _)

theorem shortest_victims {budget : Budget} {line : List Ballast}
    (covered : budget.used.toNat ≤ bytes line) :
    Shortest budget (victims budget.limit.toNat budget.used.toNat line) := by
  suffices both : ∀ used : Nat, used ≤ bytes line →
      used - bytes (victims budget.limit.toNat used line) ≤ budget.limit.toNat ∧
        ∀ fewer, fewer <+: victims budget.limit.toNat used line →
          fewer ≠ victims budget.limit.toNat used line →
            budget.limit.toNat < used - bytes fewer from
    ⟨(both _ covered).1, (both _ covered).2⟩
  clear covered
  induction line with
  | nil =>
    intro used covered
    obtain rfl : used = 0 := Nat.le_zero.mp covered
    refine ⟨by simp, fun fewer inside differs => absurd ?_ differs⟩
    exact List.prefix_nil.mp inside
  | cons b rest ih =>
    intro used covered
    rw [bytes_cons] at covered
    obtain ⟨enough, needed⟩ := ih (used - b.message.size.toNat) (by omega)
    unfold victims
    split
    · rename_i fine
      refine ⟨Nat.le_trans (Nat.sub_le _ _) fine, fun fewer inside differs => absurd ?_ differs⟩
      exact List.prefix_nil.mp inside
    · rename_i excess
      constructor
      · rw [bytes_cons]
        omega
      · intro fewer inside differs
        cases fewer with
        | nil => exact Nat.lt_of_not_le excess
        | cons first fewer =>
          obtain ⟨rfl, inside⟩ := List.cons_prefix_cons.mp inside
          have short := needed fewer inside fun same => differs (by rw [same])
          rw [bytes_cons]
          omega

end Ballast

namespace Store

variable {store after : Store} {line rest : List Ballast} {b : Ballast} {bucket : Bucket}

/-- The messages are dropped one after the other, each with a deletion that its journal takes, and
each is announced. -/
inductive Drops : Store → List Ballast → Store → Prop
  | none (store : Store) : Drops store [] store
  | next {store after last : Store} {bucket : Bucket} {b : Ballast} {rest : List Ballast}
      (found : store.buckets[b.index]? = some bucket)
      (committed : store.commit b.index bucket [.delete b.key] = (.ok (), after))
      (others : Drops (after.dropped b.key.queue b.message store.budget.used) rest last) :
      Drops store (b :: rest) last

/-- The journal does not take the deletion of the message. -/
def Refuses (store : Store) (b : Ballast) : Prop :=
  ∃ bucket fault, store.buckets[b.index]? = some bucket ∧
    (bucket.journal.append store.disk (Batch.bytes [.delete b.key])).answer = .error fault

/-- How a sweep over its victims ends: all of them are dropped, or those in front of one whose
deletion is refused. -/
inductive Ends (store : Store) (victims : List Ballast) : Store → Prop
  | dropped {after : Store} (drops : Drops store victims after) : Ends store victims after
  | refused {after : Store} {gone left : List Ballast} {b : Ballast}
      (parts : victims = gone ++ b :: left) (drops : Drops store gone after)
      (refuses : after.Refuses b) :
      Ends store victims
        { after with stats.qos0EvictionFailures := after.stats.qos0EvictionFailures + 1 }

/-- Where a deletion was made, nothing is stored any more. -/
theorem entryAt_of_delete {index : Nat} {key : EntryKey}
    (found : store.buckets[index]? = some bucket)
    (changed : after.contents = store.contents.setIfInBounds index
      (Change.actAll bucket.entries [.delete key])) (place : Nat) (other : EntryKey) :
    after.entryAt place other =
      if place = index ∧ other = key then none else store.entryAt place other := by
  rw [entryAt_set found changed]
  by_cases here : place = index
  · subst here
    by_cases same : other = key
    · subst same
      simp only [Change.actAll_cons, Change.actAll_nil, and_self, if_true]
      exact Change.get?_act_self (.delete other) bucket.entries
    · simp only [Change.actAll_cons, Change.actAll_nil, same, and_false, if_true, if_false]
      rw [Change.get?_act_of_ne same, entryAt_of_getElem? found]
  · simp [here]

/-- A message of QoS 0 leaves: its bytes are refunded, its payload is released, and nothing else
changes. -/
theorem commit_of_bears (kept : store.Kept) (bears : store.Bears b)
    (found : store.buckets[b.index]? = some bucket)
    (done : store.commit b.index bucket [.delete b.key] = (.ok (), after)) :
    (∃ buckets, after = { store with
      buckets
      budget := store.budget.refund b.message.size
      outbox.released := store.outbox.released ++ [b.message.payload]
      outbox.committed := store.outbox.committed ++ [.delete b.key] }) ∧
    ∀ place key, after.entryAt place key =
      if place = b.index ∧ key = b.key then none else store.entryAt place key := by
  obtain ⟨there, once⟩ := bears
  rw [entryAt_of_getElem? found] at there
  constructor
  · rcases commit_cases (kept found) found [.delete b.key] with
      ⟨_, failed⟩ | ⟨left, budget, committed, also⟩
    · cases done.symm.trans failed
    · cases done.symm.trans also
      have out : Change.displacedAll bucket.entries [.delete b.key] = [.publish b.message] := by
        simp [Change.displacedAll, Change.displaced, Change.key, there]
      have refund : budget = store.budget.refund b.message.size := by
        cases committed with
        | idle nothing => cases nothing
        | @written _ journal =>
          have its : ({ bucket with journal } : Bucket).entries.get? b.key =
            some (.publish b.message) := there
          simp [Bucket.applyAll, Bucket.apply, Bucket.detach, its, Entry.qos0Bytes?, once]
      rw [out, refund]
      exact ⟨_, rfl⟩
  · exact entryAt_of_delete found (contents_of_done kept found done)

theorem kept_of_commit (kept : store.Kept) (bears : store.Bears b)
    (found : store.buckets[b.index]? = some bucket)
    (done : store.commit b.index bucket [.delete b.key] = (.ok (), after)) : after.Kept := by
  have stored := bears.1
  rw [entryAt_of_getElem? found] at stored
  have next := (quiet_delete found stored).kept kept
  rwa [done] at next

/-- What is left when messages of QoS 0 were dropped: they are gone from their places, each is
released and announced once, in order, and nothing else changes. -/
structure Evicted (store : Store) (gone : List Ballast) (after : Store) : Prop where
  entries : ∀ place key, after.entryAt place key =
    if ∃ b ∈ gone, place = b.index ∧ key = b.key then none else store.entryAt place key
  state : after = { store with
    buckets := after.buckets
    budget.used := after.budget.used
    stats.qos0MemoryDropped := store.stats.qos0MemoryDropped + .ofNat gone.length
    outbox.released := store.outbox.released ++ gone.map fun b => b.message.payload
    outbox.notices := store.outbox.notices ++
      Ballast.announced store.budget.limit store.budget.used gone
    outbox.committed := store.outbox.committed ++ gone.map fun b => .delete b.key }
  used : after.budget.used.toNat = store.budget.used.toNat - Ballast.bytes gone

theorem Drops.evicted {gone : List Ballast} (drops : Drops store gone after) (kept : store.Kept)
    (bears : ∀ b ∈ gone, store.Bears b)
    (apart : gone.Pairwise fun a b => a.compareAge b = .lt) : Evicted store gone after := by
  induction drops with
  | none store =>
    refine ⟨fun place key => by simp, ?_, by simp [Ballast.bytes]⟩
    simp [Ballast.announced]
  | @next store middle last bucket b rest found committed others ih =>
    obtain ⟨here, later⟩ := List.forall_mem_cons.mp bears
    obtain ⟨fresh, apart⟩ := List.pairwise_cons.mp apart
    have next := kept_of_commit kept here found committed
    obtain ⟨form, entries⟩ := commit_of_bears kept here found committed
    have still : ∀ other ∈ rest, middle.Bears other := by
      intro other member
      rw [Bears, entries, if_neg (Ballast.apart_of_lt (fresh other member))]
      exact later other member
    obtain ⟨others, state, used⟩ := ih next still apart
    have left (place : Nat) (key : EntryKey) : last.entryAt place key =
        if ∃ other ∈ b :: rest, place = other.index ∧ key = other.key then Option.none
        else store.entryAt place key := by
      have same : (middle.dropped b.key.queue b.message store.budget.used).entryAt place key =
        middle.entryAt place key := rfl
      rw [others, same, entries]
      by_cases first : place = b.index ∧ key = b.key <;> simp [first]
    obtain ⟨buckets, rfl⟩ := form
    refine ⟨left, state.trans ?_, ?_⟩
    · simp [dropped, notify, Ballast.announced, Budget.refund, UInt64.add_assoc, UInt64.add_comm 1]
    · rw [used, Ballast.bytes_cons]
      change (saturatingSub store.budget.used b.message.size).toNat - _ = _
      rw [toNat_saturatingSub]
      omega

/-! The sweep -/

/-- A deletion that is not committed is one that the journal refused, and nothing comes of it. -/
theorem refuses_of_failed (kept : store.Kept) (named : Batch.fits b.key.queue.id = true)
    (found : store.buckets[b.index]? = some bucket) {fault : QueueFault}
    (failed : store.commit b.index bucket [.delete b.key] = (.error fault, after)) :
    store.Refuses b ∧ after = store := by
  have same := commit_of_error_of_sound found (kept found).journal_sound failed
  have nothing : [Change.delete b.key].filterMap Change.inserted? = [] := rfl
  refine ⟨?_, by simpa [releaseEntries, nothing] using same⟩
  have encoded : Batch.encode [.delete b.key] = .ok (Batch.bytes [.delete b.key]) := by
    refine Batch.encode_eq_ok_iff.mpr ⟨?_, rfl⟩
    simpa [Batch.Fits, Batch.changeTexts, Change.inserted?, Change.key] using named
  cases answer : (bucket.journal.append store.disk (Batch.bytes [.delete b.key])).answer with
  | error cause => exact ⟨bucket, cause, found, answer⟩
  | ok => simp [commit, Bucket.commit, encoded, answer] at failed

theorem evictQos0_of_room (room : store.budget.exceeded = false) (fuel : Nat) :
    store.evictQos0 fuel = store := by
  cases fuel with
  | zero => rfl
  | succ => simp [evictQos0, room]

theorem exceeded_iff : store.budget.exceeded = true ↔
    ¬ store.budget.used.toNat ≤ store.budget.limit.toNat := by
  rw [Budget.exceeded, decide_eq_true_iff, UInt64.lt_iff_toNat_lt, Nat.not_le]

/-- With more than the budget in use, a sweep turns to the message that is looked up. -/
theorem evictQos0_of_oldest {index : Nat} {key : EntryKey} {message : StoredPublish}
    (excess : store.budget.exceeded = true) (oldest : store.oldestQos0? = some (index, key))
    (found : store.buckets[index]? = some bucket)
    (stored : bucket.entries.get? key = some (.publish message)) (fuel : Nat) :
    store.evictQos0 (fuel + 1) = match store.commit index bucket [.delete key] with
      | (.error _, after) =>
        { after with stats.qos0EvictionFailures := after.stats.qos0EvictionFailures + 1 }
      | (.ok (), after) =>
        (after.dropped key.queue message store.budget.used).evictQos0 fuel := by
  rw [evictQos0, if_pos excess, oldest]
  simp only [found, stored, Option.bind_some, Entry.message?]
  rfl

section Sweep
variable (kept : store.Kept)
include kept

/-- With more than the budget in use, a sweep turns to the oldest. -/
theorem evictQos0_succ (ranked : store.Ranked (b :: rest)) (excess : store.budget.exceeded = true)
    (fuel : Nat) : ∃ bucket, store.buckets[b.index]? = some bucket ∧
      store.evictQos0 (fuel + 1) = match store.commit b.index bucket [.delete b.key] with
        | (.error _, after) =>
          { after with stats.qos0EvictionFailures := after.stats.qos0EvictionFailures + 1 }
        | (.ok (), after) =>
          (after.dropped b.key.queue b.message store.budget.used).evictQos0 fuel := by
  obtain ⟨bucket, found, _, stored⟩ := weighs_of_bears ((ranked.all b).mp List.mem_cons_self)
  exact ⟨bucket, found, evictQos0_of_oldest excess (ranked.oldest_cons kept) found stored fuel⟩

/-- A round of the sweep: the deletion of the oldest is refused and the sweep ends, or the oldest is
dropped and the sweep goes on with the others. -/
theorem sweep_round (ranked : store.Ranked (b :: rest)) (excess : store.budget.exceeded = true)
    (named : Batch.fits b.key.queue.id = true) :
    (store.Refuses b ∧ ∀ fuel, store.evictQos0 (fuel + 1) =
        { store with stats.qos0EvictionFailures := store.stats.qos0EvictionFailures + 1 }) ∨
      ∃ next : Store, (∀ {gone last}, Drops next gone last → Drops store (b :: gone) last) ∧
        next.Kept ∧ next.Ranked rest ∧ next.budget = store.budget.refund b.message.size ∧
        ∀ fuel, store.evictQos0 (fuel + 1) = next.evictQos0 fuel := by
  obtain ⟨bucket, found, _⟩ := evictQos0_succ kept ranked excess 0
  have round (fuel : Nat) := evictQos0_succ kept ranked excess fuel
  simp only [found, Option.some.injEq, exists_eq_left'] at round
  have bears := (ranked.all b).mp List.mem_cons_self
  cases committed : store.commit b.index bucket [.delete b.key] with
  | mk answer after =>
    simp only [committed] at round
    cases answer with
    | error fault =>
      obtain ⟨refuses, rfl⟩ := refuses_of_failed kept named found committed
      exact .inl ⟨refuses, round⟩
    | ok =>
      obtain ⟨form, entries⟩ := commit_of_bears kept bears found committed
      have left := ranked.tail entries
      have still := kept_of_commit kept bears found committed
      refine .inr ⟨_, .next found committed, still, ⟨left.all, left.ascending⟩, ?_, round⟩
      obtain ⟨_, rfl⟩ := form
      rfl

/-- With fuel for all messages of QoS 0, a sweep ends of itself. -/
theorem evictQos0_add (ranked : store.Ranked line)
    (named : ∀ b ∈ line, Batch.fits b.key.queue.id = true) {fuel : Nat}
    (enough : line.length ≤ fuel) (more : Nat) :
    store.evictQos0 (fuel + more) = store.evictQos0 fuel := by
  induction line generalizing store fuel with
  | nil =>
    have idle (fuel : Nat) : store.evictQos0 fuel = store := by
      cases fuel with
      | zero => rfl
      | succ => simp [evictQos0, ranked.oldest_nil kept]
    rw [idle, idle]
  | cons b rest ih =>
    obtain ⟨here, others⟩ := List.forall_mem_cons.mp named
    cases excess : store.budget.exceeded with
    | false => rw [evictQos0_of_room excess, evictQos0_of_room excess]
    | true =>
      obtain ⟨fuel, rfl⟩ : ∃ left, fuel = left + 1 := ⟨fuel - 1, by
        rw [List.length_cons] at enough
        omega⟩
      rw [Nat.add_right_comm]
      rcases sweep_round kept ranked excess here with
        ⟨_, ends⟩ | ⟨next, _, still, left, _, goes⟩
      · rw [ends, ends]
      · rw [goes, goes]
        exact ih still left others (Nat.le_of_succ_le_succ enough)

/-- A sweep turns to its victims, and to no others. -/
theorem ends_evictQos0 (ranked : store.Ranked line)
    (named : ∀ b ∈ line, Batch.fits b.key.queue.id = true) {fuel : Nat}
    (enough : line.length ≤ fuel) :
    Ends store (Ballast.victims store.budget.limit.toNat store.budget.used.toNat line)
      (store.evictQos0 fuel) := by
  induction line generalizing store fuel with
  | nil =>
    have idle := evictQos0_add kept ranked named (Nat.le_refl 0) fuel
    rw [Nat.zero_add] at idle
    rw [idle]
    exact .dropped (.none store)
  | cons b rest ih =>
    obtain ⟨here, others⟩ := List.forall_mem_cons.mp named
    unfold Ballast.victims
    split
    · rename_i fine
      have room : store.budget.exceeded = false :=
        Bool.eq_false_iff.mpr fun excess => exceeded_iff.mp excess fine
      rw [evictQos0_of_room room]
      exact .dropped (.none store)
    · rename_i excess
      obtain ⟨fuel, rfl⟩ : ∃ left, fuel = left + 1 := ⟨fuel - 1, by
        rw [List.length_cons] at enough
        omega⟩
      rcases sweep_round kept ranked (exceeded_iff.mpr excess) here with
        ⟨refuses, ends⟩ | ⟨next, before, still, left, budget, goes⟩
      · rw [ends]
        exact .refused (List.nil_append _).symm (.none store) refuses
      · have rest := ih still left others (Nat.le_of_succ_le_succ enough)
        have limit : next.budget.limit = store.budget.limit := by rw [budget]; rfl
        have used : next.budget.used.toNat =
            store.budget.used.toNat - b.message.size.toNat := by
          rw [budget]
          exact toNat_saturatingSub _ _
        rw [limit, used] at rest
        rw [goes]
        generalize next.evictQos0 fuel = last at rest ⊢
        cases rest with
        | dropped drops => exact .dropped (before drops)
        | @refused after gone others v parts drops refuses =>
          rw [parts]
          exact .refused (List.cons_append).symm (before drops) refuses

end Sweep

end Store

/-! Insertion -/

namespace Store

variable {store after middle : Store} {index : Nat} {bucket : Bucket} {queue : QueueKey}
variable {message : Publish} {limit : Nat} {policy : DiscardPolicy}

/-- The message is inserted, in a place that is free or in that of an older one. The store that is
left, before its budget is looked at, is the last one. -/
inductive Inserts (store : Store) (queue : QueueKey) (message : Publish) (limit : Nat)
    (policy : DiscardPolicy) (index : Nat) : Store → Prop
  | accepted {bucket : Bucket} {after : Store} (opened : store.bucket index = .ok bucket)
      (room : Admission.decide (bucket.classSize queue (.of message.qos)) limit policy = .accept)
      (done : { store with sequence := store.sequence.advance }.commit index bucket
        (arrival none ⟨queue, store.sequence.next⟩ message) = (.ok (), after)) :
      Inserts store queue message limit policy index after
  | evicting {bucket : Bucket} {old : EntryKey} {after : Store}
      (opened : store.bucket index = .ok bucket)
      (full : Admission.decide (bucket.classSize queue (.of message.qos)) limit policy =
        .evictOldest)
      (oldest : bucket.oldestEvictable? queue (.of message.qos) = some old)
      (done : { store with sequence := store.sequence.advance }.commit index bucket
        (arrival (some old) ⟨queue, store.sequence.next⟩ message) = (.ok (), after)) :
      Inserts store queue message limit policy index
        (after.yielded queue ((bucket.entries.get? old).bind Entry.message?))

theorem enqueue_of_done {evicted : Option EntryKey}
    (once : message.qos = .atMostOnce)
    (done : { store with sequence := store.sequence.advance }.commit index bucket
      (arrival evicted ⟨queue, store.sequence.next⟩ message) = (.ok (), after)) :
    store.enqueue queue message evicted index bucket = (.ok (), (after.yielded queue
      (evicted.bind fun old => (bucket.entries.get? old).bind Entry.message?)).enforceBudget) := by
  have enqueues := enqueues_enqueue store queue message evicted index bucket
  generalize store.enqueue queue message evicted index bucket = served at enqueues ⊢
  cases enqueues with
  | fails failed => cases failed.symm.trans done
  | arrives also room =>
    cases also.symm.trans done
    rw [if_pos once, room]

/-- After the insertion, the budget is enforced. -/
theorem Inserts.addPublish_eq (inserts : Inserts store queue message limit policy index middle)
    (once : message.qos = .atMostOnce) :
    store.addPublish queue message limit policy index = (.ok (), middle.enforceBudget) := by
  cases inserts with
  | accepted opened room done =>
    rw [addPublish, opened]
    simp only [room]
    exact enqueue_of_done once done
  | evicting opened full oldest done =>
    rw [addPublish, opened]
    simp only [full, oldest]
    exact enqueue_of_done once done

/-- What an insertion comes down to. -/
theorem Inserts.exists_done (inserts : Inserts store queue message limit policy index middle) :
    ∃ bucket evicted after gone, store.buckets[index]? = some bucket ∧
      (∀ old ∈ evicted, ∃ entry, bucket.entries.get? old = some entry) ∧
      { store with sequence := store.sequence.advance }.commit index bucket
        (arrival evicted ⟨queue, store.sequence.next⟩ message) = (.ok (), after) ∧
      middle = after.yielded queue gone := by
  cases inserts with
  | @accepted bucket after opened _ done =>
    exact ⟨bucket, none, middle, none, getElem?_of_bucket opened, by simp, done, rfl⟩
  | @evicting bucket old after opened _ oldest done =>
    obtain ⟨_, entry, stored, _⟩ := of_oldestEvictable? oldest
    refine ⟨bucket, some old, after, _, getElem?_of_bucket opened, ?_, done, rfl⟩
    rintro _ ⟨⟩
    exact ⟨entry, stored⟩

/-- What a commit that succeeds leaves of a bucket and of the budget. -/
theorem exists_applied {changes : List Change} (its : bucket.Kept)
    (found : store.buckets[index]? = some bucket) (some : changes ≠ [])
    (done : store.commit index bucket changes = (.ok (), after)) :
    ∃ new journal, after.buckets = store.buckets.setIfInBounds index new ∧
      new.entries = Change.actAll bucket.entries changes ∧
      after.budget = ({ bucket with journal }.applyAll store.budget changes).2.1 := by
  rcases commit_cases its found changes with ⟨_, failed⟩ | ⟨new, budget, committed, also⟩
  · cases done.symm.trans failed
  · cases done.symm.trans also
    refine ⟨new, ?_⟩
    have entries := committed.entries
    cases committed with
    | idle nothing => exact absurd nothing some
    | @written _ journal => exact ⟨journal, rfl, entries, rfl⟩

/-- A message that was inserted stands at the next place, and weighs on the budget. -/
theorem Inserts.settled (inserts : Inserts store queue message limit policy index middle)
    (kept : store.Kept) (writable : store.Writable)
    (exact : store.budget.used.toNat = store.qos0Bytes) (once : message.qos = .atMostOnce) :
    middle.Kept ∧ middle.Writable ∧
      middle.Bears ⟨index, ⟨queue, store.sequence.next⟩, .ofPublish message⟩ ∧
      middle.budget.used.toNat = middle.qos0Bytes % UInt64.size ∧
      middle.budget.limit = store.budget.limit := by
  obtain ⟨bucket, evicted, after, gone, found, stored, done, rfl⟩ := inserts.exists_done
  obtain ⟨stats, outbox, last⟩ := yielded_eq after queue gone
  rw [last]
  have its := kept found
  have lawful := lawfulAlong_arrival its.sound stored ⟨queue, store.sequence.next⟩ message
  have settled := kept.advance.commit found lawful
  have changed := contents_of_done kept.advance found done
  have there : after.entryAt index ⟨queue, store.sequence.next⟩ =
      some (.publish (.ofPublish message)) := by
    rw [entryAt_set found changed, if_pos rfl, arrival, Change.actAll_append, Change.actAll_cons,
      Change.actAll_nil]
    exact Change.get?_act_self (.insert ⟨queue, store.sequence.next⟩ _) _
  have written := (kept.advance.smooth found lawful).writable writable
  rw [done] at settled written
  refine ⟨settled, written, ⟨there, once⟩, ?_⟩
  have foundToo : ({ store with sequence := store.sequence.advance } : Store).buckets[index]? =
      some bucket := found
  obtain ⟨new, journal, replaced, entries, budget⟩ :=
    exists_applied its foundToo (by simp [arrival]) done
  have weights : after.qos0Bytes + bucket.entries.weight = store.qos0Bytes + new.entries.weight :=
    total_set found after replaced fun bucket => bucket.entries.weight
  have share : bucket.entries.weight ≤ store.qos0Bytes :=
    le_total found fun bucket => bucket.entries.weight
  have base : store.budget.used.toNat = store.qos0Bytes - bucket.entries.weight +
      ({ bucket with journal } : Bucket).entries.weight := by
    change _ = _ + bucket.entries.weight
    omega
  have used := Bucket.used_arrival base evicted ⟨queue, store.sequence.next⟩ message
  have same : ({ bucket with journal } : Bucket).entries = bucket.entries := rfl
  rw [same, ← entries] at used
  constructor
  · have sum : store.qos0Bytes - bucket.entries.weight + new.entries.weight = after.qos0Bytes := by
      omega
    rw [sum] at used
    exact (congrArg (fun budget : Budget => budget.used.toNat) budget).trans used
  · exact (congrArg Budget.limit budget).trans (Bucket.limit_applyAll _ _ _)

theorem Writable.named (writable : store.Writable) {b : Ballast} (bears : store.Bears b) :
    Batch.fits b.key.queue.id = true := by
  obtain ⟨bucket, found, _, stored⟩ := weighs_of_bears bears
  exact writable.bucket found stored _ List.mem_cons_self

/-- A message of QoS 0 that is inserted makes the oldest give way until the budget holds, itself if
need be. A journal that refuses a deletion ends this, and does not make the insertion fail. -/
theorem add_evicts_oldest (reached : store.Reached)
    (exact : store.budget.used.toNat = store.qos0Bytes) (once : message.qos = .atMostOnce)
    (inserts : Inserts store queue message limit policy index middle) :
    store.add queue (.publish message) limit policy index = (.ok (), middle.enforceBudget) ∧
    (∀ more, middle.evictQos0 (middle.qos0Count + more) = middle.enforceBudget) ∧
    ∃ line victims, middle.Ranked line ∧
      ⟨index, ⟨queue, store.sequence.next⟩, .ofPublish message⟩ ∈ line ∧
      middle.budget.limit = store.budget.limit ∧
      middle.budget.used.toNat = Ballast.bytes line % UInt64.size ∧
      victims <+: line ∧ Ballast.Shortest middle.budget victims ∧
      middle.Ends victims middle.enforceBudget ∧
      ∀ gone after, gone <+: victims → Drops middle gone after → Evicted middle gone after := by
  obtain ⟨settings, disk, first, payloads, events, started, rfl⟩ := reached
  obtain ⟨kept, writable, newest, used, same⟩ := inserts.settled
    (World.run_orderly started payloads events).kept
    (World.run_writable started payloads events) exact once
  obtain ⟨line, ranked, perm⟩ := exists_ranked middle
  have bytes : Ballast.bytes line = middle.qos0Bytes := by
    rw [← bytes_ballast]
    exact (perm.map fun b => b.message.size.toNat).sum_eq
  have named : ∀ b ∈ line, Batch.fits b.key.queue.id = true :=
    fun b member => writable.named ((ranked.all b).mp member)
  have enough : line.length ≤ middle.qos0Count := by
    rw [perm.length_eq]
    exact length_ballast_le (forall_toList fun _ _ found => (kept found).agrees.indexed)
  have covered : middle.budget.used.toNat ≤ Ballast.bytes line := by
    rw [used, bytes]
    exact Nat.mod_le _ _
  have inside := Ballast.victims_prefix middle.budget.limit.toNat middle.budget.used.toNat line
  refine ⟨inserts.addPublish_eq once, evictQos0_add kept ranked named enough, line, _, ranked,
    (ranked.all _).mpr newest, same, by rw [used, bytes], inside,
    Ballast.shortest_victims covered, ends_evictQos0 kept ranked named enough, ?_⟩
  intro gone after front drops
  have part := front.trans inside
  exact drops.evicted kept (fun b member => (ranked.all b).mp (part.subset member))
    (ranked.ascending.sublist part.sublist)

/-- Two buckets that share a budget of 100 bytes. -/
def scarce : Settings :=
  { Settings.standard with bucketCount := 2, qos0MemoryDivisor := 1, maxMemoryBytes := 100 }

/-- Two messages of 40 bytes wait in two buckets. The journal of the second one takes no more. -/
def pressed : Store :=
  let message := { Publish.ofQos .atMostOnce "u" 1 with size := 40 }
  let first := { blank scarce .empty with buckets := #[fresh, { fresh with index := 1 }] }
  ((World.start first .empty).run
    [.ask (.add .client (.publish message) 10 .discard 0),
      .ask (.add .client (.publish message) 10 .discard 1), .tell 1 ⟨none, true, false, 0⟩]).store

/-- The first message goes, and the second should. -/
theorem add_evicts_oldest_pressed :
    let message := { Publish.ofQos .atMostOnce "u" 2 with size := 70 }
    ∃ middle victims, Inserts pressed .client message 10 .discard 0 middle ∧
      Ballast.Shortest middle.budget victims ∧ middle.Ends victims middle.enforceBudget ∧
      pressed.add .client (.publish message) 10 .discard 0 = (.ok (), middle.enforceBudget) ∧
      middle.enforceBudget.outbox.notices = [.qos0Memory false "c" "t" .atMostOnce 150 100] ∧
      middle.enforceBudget.budget.used = 110 ∧
      middle.enforceBudget.stats.qos0EvictionFailures = 1 := by
  intro message
  have reached : pressed.Reached := ⟨scarce, .empty, _, .empty, _, rfl, rfl⟩
  have fine : (pressed.bucket 0).toOption.any (fun bucket =>
      decide (Admission.decide (bucket.classSize .client (.of message.qos)) 10 .discard =
        .accept) &&
      ({ pressed with sequence := pressed.sequence.advance }.commit 0 bucket
        (arrival none ⟨.client, pressed.sequence.next⟩ message)).1.isOk) = true := by
    decide +kernel
  obtain ⟨middle, inserts⟩ : ∃ middle, Inserts pressed .client message 10 .discard 0 middle := by
    cases opened : pressed.bucket 0 with
    | error fault =>
      rw [opened] at fine
      cases fine
    | ok bucket =>
      rw [opened] at fine
      obtain ⟨room, works⟩ := Bool.and_eq_true_iff.mp fine
      cases done : { pressed with sequence := pressed.sequence.advance }.commit 0 bucket
          (arrival none ⟨.client, pressed.sequence.next⟩ message) with
      | mk answer after =>
        rw [done] at works
        cases answer with
        | error fault => cases works
        | ok => exact ⟨after, .accepted opened (of_decide_eq_true room) done⟩
  obtain ⟨added, _, _, victims, _, _, _, _, _, shortest, ends, _⟩ :=
    add_evicts_oldest reached (by decide +kernel) rfl inserts
  have left : (pressed.add .client (.publish message) 10 .discard 0).2.outbox.notices =
        [.qos0Memory false "c" "t" .atMostOnce 150 100] ∧
      (pressed.add .client (.publish message) 10 .discard 0).2.budget.used = 110 ∧
      (pressed.add .client (.publish message) 10 .discard 0).2.stats.qos0EvictionFailures = 1 := by
    decide +kernel
  rw [added] at left
  exact ⟨middle, victims, inserts, shortest, ends, added, left⟩

end Store

end DeliveryQueue
