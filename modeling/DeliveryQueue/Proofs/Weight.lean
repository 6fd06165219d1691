import DeliveryQueue.Proofs.Numbers
import Mathlib.Algebra.Order.BigOperators.Group.List
import Mathlib.Algebra.Order.Group.Nat

/-!
The QoS 0 budget is exact as long as the sizes of all messages of QoS 0 that were ever handed over
stay below 2^64 together: it is the sum of the sizes that weigh on it (`World.Weighed`). Along with
it, every journal can be read, as long as buckets hold fewer than 2^32 entries.
-/
namespace DeliveryQueue

theorem toNat_saturatingSub (a b : UInt64) : (saturatingSub a b).toNat = a.toNat - b.toNat := by
  rw [saturatingSub]
  split
  · rename_i le
    exact UInt64.toNat_sub_of_le _ _ le
  · rename_i less
    rw [UInt64.le_iff_toNat_le] at less
    change 0 = a.toNat - b.toNat
    omega

namespace Budget

theorem toNat_used_charge (budget : Budget) (bytes : UInt64) :
    (budget.charge bytes).used.toNat = (budget.used.toNat + bytes.toNat) % UInt64.size :=
  UInt64.toNat_add ..

theorem toNat_used_refund (budget : Budget) (bytes : UInt64) :
    (budget.refund bytes).used.toNat = budget.used.toNat - bytes.toNat :=
  toNat_saturatingSub ..

end Budget

namespace Bucket

variable {bucket : Bucket} {budget : Budget} {key : EntryKey} {base : Nat}

theorem weight_erase (entries : Entries) (key : EntryKey) :
    (entries.erase key).weight + (entries.get? key).elim 0 Entry.weight = entries.weight :=
  Table.total_erase entries (fun _ => Entry.weight) key

/-- The budget follows an entry that is taken out. -/
theorem used_detach (exact : budget.used.toNat = base + bucket.entries.weight) (key : EntryKey) :
    (bucket.detach budget key).2.1.used.toNat = base + (bucket.entries.erase key).weight := by
  have trade := weight_erase bucket.entries key
  cases found : bucket.entries.get? key with
  | none => rw [detach_of_get?_eq_none found, Table.erase_of_get?_eq_none found, exact]
  | some entry =>
    rw [detach_of_get?_eq_some found]
    simp only [found, Option.elim, Entry.weight] at trade
    cases weighs : entry.qos0Bytes? with
    | none =>
      simp only [weighs] at trade
      simp only [Option.elim]
      omega
    | some bytes =>
      simp only [weighs] at trade
      simp only [Option.elim]
      rw [Budget.toNat_used_refund]
      omega

/-- The budget follows a key that is set, around the end of its range. -/
theorem used_put_mod (key : EntryKey) (exact : budget.used.toNat = base + bucket.entries.weight)
    (after : Option Entry) : (bucket.put budget key after).2.used.toNat =
      (base + (bucket.entries.set key after).weight) % UInt64.size := by
  have cleared := used_detach exact key
  have small := UInt64.toNat_lt_size (bucket.detach budget key).2.1.used
  cases after with
  | none => exact cleared.trans (Nat.mod_eq_of_lt (cleared ▸ small)).symm
  | some entry =>
    have trade := weight_erase (bucket.entries.insert key entry) key
    rw [Table.erase_insert, Table.get?_insert_self] at trade
    simp only [Option.elim, Entry.weight] at trade
    simp only [Table.set, put, occupy_eq]
    cases weighs : entry.qos0Bytes? with
    | none =>
      simp only [weighs] at trade
      simp only [Option.elim]
      rw [← trade, Nat.add_zero, ← cleared, Nat.mod_eq_of_lt small]
    | some bytes =>
      simp only [weighs] at trade
      simp only [Option.elim]
      rw [Budget.toNat_used_charge, cleared, Nat.add_assoc, trade]

theorem used_put (exact : budget.used.toNat = base + bucket.entries.weight) {after : Option Entry}
    (room : base + (bucket.entries.set key after).weight < UInt64.size) :
    (bucket.put budget key after).2.used.toNat =
      base + (bucket.entries.set key after).weight :=
  (used_put_mod key exact after).trans (Nat.mod_eq_of_lt room)

theorem used_applyAll {changes : List Change}
    (lawful : Change.LawfulAlong bucket.entries changes)
    (exact : budget.used.toNat = base + bucket.entries.weight)
    (room : base + bucket.entries.weight + (changes.map Change.load).sum < UInt64.size) :
    (bucket.applyAll budget changes).2.1.used.toNat =
      base + (Change.actAll bucket.entries changes).weight := by
  induction changes generalizing bucket budget with
  | nil => exact exact
  | cons change changes ih =>
    have grows := lawful.1.weight
    simp only [List.map_cons, List.sum_cons] at room
    have first : (bucket.apply budget change).2.1.used.toNat =
        base + (bucket.apply budget change).1.entries.weight := by
      rw [entries_apply, apply_eq]
      exact used_put exact (by rw [← Change.act]; omega)
    have others : Change.LawfulAlong (bucket.apply budget change).1.entries changes := by
      rw [entries_apply]
      exact lawful.2
    have rest := ih others first (by rw [entries_apply]; omega)
    rwa [entries_apply] at rest

variable {after : Bucket} {left : Budget} {changes front : List Change}

theorem Committed.used (committed : bucket.Committed budget changes after left)
    (lawful : Change.LawfulAlong bucket.entries changes)
    (exact : budget.used.toNat = base + bucket.entries.weight)
    (room : base + bucket.entries.weight + (changes.map Change.load).sum < UInt64.size) :
    left.used.toNat = base + after.entries.weight := by
  cases committed with
  | idle => exact exact
  | @written batches journal held short longer =>
    rw [(applyAll_frame { bucket with journal } budget changes).1]
    exact used_applyAll lawful exact room

/-- A batch of fewer than 2^32 changes can be read again. -/
theorem Committed.readable (committed : bucket.Committed budget changes after left)
    (lawful : Change.LawfulAlong bucket.entries changes) (read : bucket.logged? = some front)
    (few : changes.length < UInt32.size) : after.logged? = some (front ++ changes) := by
  cases committed with
  | idle nothing => rw [nothing, List.append_nil, read]
  | @written batches journal held short longer =>
    have frame := applyAll_frame { bucket with journal } budget changes
    rw [Bucket.logged?, held] at read
    have before : Batch.changes? batches = some front := read
    rw [Bucket.logged?, frame.2.1]
    change journal.held?.bind Batch.changes? = some (front ++ changes)
    simp [longer, Batch.changes?_append, before, Batch.changes?, Batch.decode_bytes short few,
      lawful.plain]

/-- The weight of all that the journal of a bucket brings in. -/
def load (bucket : Bucket) : Nat :=
  bucket.logged?.elim 0 fun changes => (changes.map Change.load).sum

theorem Kept.weight_le_load (kept : bucket.Kept) (read : bucket.logged? = some changes) :
    bucket.entries.weight ≤ bucket.load := by
  obtain ⟨lawful, reached⟩ := kept.lawful read
  have bound := lawful.weight
  rw [reached] at bound
  simpa [load, read, Table.weight, Table.total, Table.empty] using bound

/-- Upkeep leaves the journal readable, and no heavier. -/
theorem Tended.load_le {few : Nat} (tended : bucket.Tended few after) (kept : bucket.Kept)
    (small : few < UInt32.size) (read : bucket.logged? = some changes) :
    (∃ all, after.logged? = some all) ∧ after.load ≤ bucket.load := by
  obtain ⟨batches, held, _⟩ := kept.recalled
  cases tended with
  | flush journal same =>
    have again : { bucket with journal }.logged? = bucket.logged? := by
      simp only [logged?, held, same batches held]
    exact ⟨⟨changes, again.trans read⟩, Nat.le_of_eq (by rw [load, again, load])⟩
  | forget => exact ⟨⟨changes, read⟩, Nat.le_refl _⟩
  | compact disk short =>
    rcases compact_cases held disk with ⟨fault, same⟩ | ⟨journal, fits, shorter, written⟩
    · rw [same]
      exact ⟨⟨changes, read⟩, Nat.le_refl _⟩
    · have length : (snapshot bucket.entries).length < UInt32.size := by
        rw [snapshot, List.length_map]
        exact Nat.lt_of_le_of_lt short small
      have whole : { bucket with journal }.logged? = some (snapshot bucket.entries) := by
        simp [logged?, shorter, Batch.changes?, Batch.decode_bytes fits length,
          (lawfulAlong_snapshot kept.sound).plain]
      rw [written]
      refine ⟨⟨_, whole⟩, ?_⟩
      rw [load, whole, Option.elim, load_snapshot]
      exact kept.weight_le_load read

end Bucket

/-- What an offer may add to the QoS 0 budget. -/
def Offer.weight (offer : Offer) : Nat :=
  if offer.message.qos = .atMostOnce then offer.message.size.toNat else 0

/-- The weight of all messages of QoS 0 that were handed over. -/
def qos0Weight (offers : List Offer) : Nat := (offers.map Offer.weight).sum

namespace Store

/-- The budget is exact, the journals can be read, and bring in no more than was handed over. -/
structure Weighed (store : Store) (handed : Nat) : Prop where
  exact : store.budget.used.toNat = store.total fun bucket => bucket.entries.weight
  loads : store.total Bucket.load ≤ handed
  readable : ∀ ⦃index : Nat⦄ ⦃bucket : Bucket⦄, store.buckets[index]? = some bucket →
    ∃ changes, bucket.logged? = some changes

variable {store after : Store} {index few handed : Nat} {bucket : Bucket} {offer : Option Offer}

theorem le_total (found : store.buckets[index]? = some bucket) (measure : Bucket → Nat) :
    measure bucket ≤ store.total measure :=
  List.le_sum_of_mem (List.mem_map_of_mem (mem_toList found))

theorem Weighed.weight_le (weighed : store.Weighed handed) (kept : store.Kept) :
    (store.total fun bucket => bucket.entries.weight) ≤ handed := by
  refine Nat.le_trans (List.sum_le_sum ?_) weighed.loads
  refine forall_toList fun index bucket found => ?_
  obtain ⟨changes, read⟩ := weighed.readable found
  exact (kept found).weight_le_load read

/-- Replacing a bucket keeps the budget exact if the budget follows it. -/
theorem Weighed.set (weighed : store.Weighed handed)
    (found : store.buckets[index]? = some bucket) {new : Bucket} {more : Nat}
    (replaced : after.buckets = store.buckets.setIfInBounds index new)
    (exact : after.budget.used.toNat + bucket.entries.weight =
      store.budget.used.toNat + new.entries.weight)
    (load : new.load ≤ bucket.load + more) (readable : ∃ changes, new.logged? = some changes) :
    after.Weighed (handed + more) := by
  have weights := total_set found after replaced fun bucket => bucket.entries.weight
  have loads := total_set found after replaced Bucket.load
  have before := weighed.exact
  have bound := weighed.loads
  refine ⟨by omega, by omega, ?_⟩
  rw [replaced]
  exact forall_set weighed.readable readable

/-- A commit adds what its changes bring in. -/
theorem Weighed.commit (weighed : store.Weighed handed) (kept : store.Kept)
    (found : store.buckets[index]? = some bucket) {changes : List Change}
    (lawful : Change.LawfulAlong bucket.entries changes) (short : changes.length < UInt32.size)
    (room : handed + (changes.map Change.load).sum < UInt64.size) :
    (store.commit index bucket changes).2.Weighed (handed + (changes.map Change.load).sum) := by
  rcases commit_cases (kept found) found changes with
    ⟨fault, failed⟩ | ⟨new, left, committed, done⟩
  · rw [failed]
    exact ⟨weighed.exact, Nat.le_trans weighed.loads (Nat.le_add_right _ _), weighed.readable⟩
  · rw [done]
    obtain ⟨front, read⟩ := weighed.readable found
    have again := committed.readable lawful read short
    have grown : new.load = bucket.load + (changes.map Change.load).sum := by
      simp [Bucket.load, again, read]
    -- the budget is the weight of this bucket and that of all others
    have part := le_total found fun bucket => bucket.entries.weight
    have above := weighed.weight_le kept
    have exact := weighed.exact
    have split : store.budget.used.toNat =
        store.budget.used.toNat - bucket.entries.weight + bucket.entries.weight := by omega
    have used := committed.used lawful split (by omega)
    refine weighed.set found rfl ?_ (Nat.le_of_eq grown) ⟨_, again⟩
    change left.used.toNat + _ = _
    omega

theorem Quiet.weighed (step : Quiet few store after) (kept : store.Kept)
    (small : few < UInt32.size) (room : handed < UInt64.size) (weighed : store.Weighed handed) :
    after.Weighed handed := by
  cases step with
  | @edit index bucket changes found edits short =>
    have nothing := edits.load
    have committed := weighed.commit kept found (edits.lawful (kept found).sound)
      (Nat.lt_of_le_of_lt short small) (by rwa [nothing])
    rwa [nothing] at committed
  | @tend index bucket new found tended =>
    obtain ⟨changes, read⟩ := weighed.readable found
    obtain ⟨readable, lighter⟩ := tended.load_le (kept found) small read
    change Weighed _ (handed + 0)
    exact weighed.set found rfl (by rw [tended.entries]) lighter readable
  | note => exact ⟨weighed.exact, weighed.loads, weighed.readable⟩

theorem Quietly.weighed (steps : Quietly few store after) (kept : store.Kept)
    (small : few < UInt32.size) (room : handed < UInt64.size) (weighed : store.Weighed handed) :
    after.Weighed handed := by
  induction steps with
  | refl => exact weighed
  | next step _ ih => exact ih (step.kept kept) (step.weighed kept small room weighed)

/-- What an arrival brings in is the weight of its message. -/
theorem load_arrival (evicted : Option EntryKey) (key : EntryKey) (message : Publish)
    (queue : QueueKey) (index : Nat) :
    ((arrival evicted key message).map Change.load).sum =
      Offer.weight ⟨queue, message, index⟩ := by
  have brought : Entry.weight (.publish (.ofPublish message)) =
      Offer.weight ⟨queue, message, index⟩ := by
    simp only [Entry.weight, Entry.qos0Bytes?, Offer.weight, StoredPublish.ofPublish]
    by_cases unacknowledged : message.qos = .atMostOnce <;> simp [unacknowledged]
  cases evicted <;> simp [arrival, brought, Change.load, Change.inserted?]

theorem Step.weighed (step : Step few store offer after) (kept : store.Kept)
    (small : few < UInt32.size) (weighed : store.Weighed handed)
    (room : handed + offer.elim 0 Offer.weight < UInt64.size) :
    after.Weighed (handed + offer.elim 0 Offer.weight) := by
  cases step with
  | @enqueue index bucket found queue message evicted stored =>
    have same : { store with sequence := store.sequence.advance }.Weighed handed :=
      ⟨weighed.exact, weighed.loads, weighed.readable⟩
    have load := load_arrival evicted ⟨queue, store.sequence.next⟩ message queue index
    have length : (arrival evicted ⟨queue, store.sequence.next⟩ message).length < UInt32.size := by
      cases evicted <;> simp [arrival, UInt32.size]
    simp only [Option.elim] at room ⊢
    rw [← load] at room ⊢
    exact same.commit kept.advance found (lawfulAlong_arrival (kept found).sound stored _ message)
      length room
  | @enqueuePubrel index bucket found queue id free =>
    have same : { store with sequence := store.sequence.advance }.Weighed handed :=
      ⟨weighed.exact, weighed.loads, weighed.readable⟩
    exact same.commit kept.advance found (lawfulAlong_pubrel (kept found).sound free)
      (by simp [UInt32.size]) room
  | refuse =>
    exact ⟨weighed.exact, Nat.le_trans weighed.loads (Nat.le_add_right _ _), weighed.readable⟩
  | quiet step => exact step.weighed kept small room weighed
  | stay => exact weighed

/-- All buckets hold fewer than 2^32 entries. -/
def Small (store : Store) : Prop :=
  ∀ bucket ∈ store.buckets.toList, bucket.entryCount < UInt32.size

instance (store : Store) : Decidable store.Small := List.decidableBAll _ _

theorem Took.weighed (took : Took store offer after) (kept : store.Kept) (small : store.Small)
    (weighed : store.Weighed handed) (room : handed + offer.elim 0 Offer.weight < UInt64.size) :
    after.Weighed (handed + offer.elim 0 Offer.weight) := by
  obtain ⟨few, middle, spans, step, rest⟩ := took
  have short : few < UInt32.size := by
    rcases spans with one | ⟨index, bucket, found, few⟩
    · exact Nat.lt_of_le_of_lt one (by decide)
    · exact Nat.lt_of_le_of_lt few (small bucket (mem_toList found))
  exact rest.weighed (step.kept kept) short room (step.weighed kept short weighed room)

variable {old : Bucket} {olds : List Bucket} {changes : List Change}

theorem Weighed.revive (weighed : store.Weighed handed) (kept : store.Kept) (revived : old.Kept)
    (read : old.logged? = some changes) (room : handed + old.load < UInt64.size) :
    (store.revive old changes).Weighed (handed + old.load) := by
  obtain ⟨lawful, reached⟩ := revived.lawful read
  have bound : (changes.map Change.load).sum = old.load := by rw [Bucket.load, read, Option.elim]
  have bare : (Bucket.ofJournal store.bucketCount old.journal).entries.weight = 0 := rfl
  have frame := Bucket.applyAll_frame (Bucket.ofJournal store.bucketCount old.journal)
    store.budget changes
  have used : (store.revive old changes).budget.used.toNat =
      (store.total fun bucket => bucket.entries.weight) +
        (Change.actAll Table.empty changes).weight := by
    have above := weighed.weight_le kept
    exact Bucket.used_applyAll lawful weighed.exact (by rw [bare, bound]; omega)
  have again : ((Bucket.ofJournal store.bucketCount old.journal).applyAll
      store.budget changes).1.logged? = some changes := by
    rw [Bucket.logged?, frame.2.1]
    exact read
  have totals (measure : Bucket → Nat) : (store.revive old changes).total measure =
      store.total measure + measure ((Bucket.ofJournal store.bucketCount old.journal).applyAll
        store.budget changes).1 := by
    simp [Store.total, Store.revive]
  constructor
  · rw [used, totals, frame.1]
    rfl
  · rw [totals, Bucket.load, again, Option.elim, bound]
    exact Nat.add_le_add_right weighed.loads _
  · intro index bucket found
    simp only [Store.revive, Array.getElem?_push] at found
    split at found
    · cases found
      exact ⟨changes, again⟩
    · exact weighed.readable found

/-- The budget of a store that was opened is exact again. -/
theorem Reopened.weighed (h : Reopened store olds after) (weighed : store.Weighed handed)
    (kept : store.Kept) (room : handed + (olds.map Bucket.load).sum < UInt64.size) :
    after.Weighed (handed + (olds.map Bucket.load).sum) := by
  induction h generalizing handed with
  | done => exact weighed
  | @revive store after old olds changes revived read _ ih =>
    rw [List.map_cons, List.sum_cons, ← Nat.add_assoc] at room ⊢
    exact ih (weighed.revive kept revived read (by omega)) (revive_kept kept revived read) room

theorem blank_weighed (settings : Settings) (disk : Disk) : (blank settings disk).Weighed 0 where
  exact := rfl
  loads := Nat.le_refl 0
  readable _ _ found := by cases found

end Store

namespace World

theorem qos0Weight_append (offers : List Offer) (offer : Option Offer) :
    qos0Weight (offers ++ offer.toList) = qos0Weight offers + offer.elim 0 Offer.weight := by
  cases offer <;> simp [qos0Weight]

variable {world : World}

theorem Moves.weighed {after : World} {event : Event} (moves : world.Moves event after)
    (kept : world.store.Kept) (small : world.store.Small) (offered : Nat)
    (room : offered + event.offer?.elim 0 Offer.weight < UInt64.size)
    (weighed : world.store.Weighed offered) :
    after.store.Weighed (offered + event.offer?.elim 0 Offer.weight) := by
  cases moves with
  | ask request =>
    have served := (Store.serve_took kept request).weighed kept small weighed room
    exact ⟨served.exact, served.loads, served.readable⟩
  | call => exact weighed
  | still silent quiet outbox =>
    rw [silent] at room ⊢
    exact quiet.weighed kept (by decide) room weighed
  | reopen reopened =>
    have bound := weighed.loads
    have opened := reopened.weighed (Store.blank_weighed _ _) (Store.blank_kept _ _)
      (by rw [Nat.zero_add]; exact Nat.lt_of_le_of_lt bound room)
    rw [Nat.zero_add] at opened
    exact ⟨opened.exact, Nat.le_trans opened.loads bound, opened.readable⟩

theorem start_weighed {settings : Settings} {disk : Disk} {store : Store}
    (opened : Store.inMemory settings disk = .ok store) : store.Weighed 0 := by
  obtain ⟨used, reopened⟩ := Store.reopened_of_inMemory opened
  have bare : Store.fresh.load = 0 := rfl
  have loads : ((List.replicate settings.bucketCount Store.fresh).map Bucket.load).sum = 0 := by
    rw [List.map_replicate, List.sum_replicate_nat, bare, Nat.mul_zero]
  have weighed := reopened.weighed (Store.blank_weighed used disk) (Store.blank_kept used disk)
    (by rw [loads]; decide)
  rwa [loads] at weighed

/-- The budget is exact in every run whose buckets stay small and whose messages of QoS 0 have sizes
that stay below 2^64 together. -/
theorem run_weighed {settings : Settings} {disk : Disk} {store : Store}
    (opened : Store.inMemory settings disk = .ok store) (payloads : Payloads) (events : List Event)
    (small : ∀ front, front <+: events → ((start store payloads).run front).store.Small)
    (room : qos0Weight ((start store payloads).run events).offers < UInt64.size) :
    ((start store payloads).run events).store.Weighed
      (qos0Weight ((start store payloads).run events).offers) := by
  induction events using List.reverseRecOn with
  | nil => exact start_weighed opened
  | append_singleton events event ih =>
    rw [run_concat, offers_step, qos0Weight_append] at room
    rw [run_concat, offers_step, qos0Weight_append]
    have kept := (run_orderly opened payloads events).kept
    have weighed := ih (fun front first => small front (first.trans (List.prefix_append _ _)))
      (Nat.lt_of_le_of_lt (Nat.le_add_right _ _) room)
    exact (moves_step kept event).weighed kept (small events (List.prefix_append _ _)) _ room
      weighed

end World

end DeliveryQueue
