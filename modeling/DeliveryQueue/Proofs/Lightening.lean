import DeliveryQueue.Proofs.Carrying
import DeliveryQueue.Proofs.Failure

/-!
Commits that bring nothing in that weighs on the QoS 0 budget (`Change.Lighten`). All that they do
to the budget is to give back what the entries weighed whose places they change
(`Store.exists_commit`).
-/
namespace DeliveryQueue

/-! The budget -/

namespace Budget

/-- Give bytes back, as many as there are. -/
def drain (budget : Budget) (bytes : Nat) : Budget :=
  { budget with used := UInt64.ofNat (budget.used.toNat - bytes) }

theorem toNat_used_drain (budget : Budget) (bytes : Nat) :
    (budget.drain bytes).used.toNat = budget.used.toNat - bytes :=
  UInt64.toNat_ofNat_of_lt' (Nat.lt_of_le_of_lt (Nat.sub_le _ _) (UInt64.toNat_lt_size _))

theorem drain_zero (budget : Budget) : budget.drain 0 = budget := by
  simp [drain]

theorem drain_drain (budget : Budget) (first second : Nat) :
    (budget.drain first).drain second = budget.drain (first + second) := by
  simp only [drain, mk.injEq, true_and, ← UInt64.toNat_inj]
  have used := toNat_used_drain budget first
  rw [drain] at used
  rw [used, Nat.sub_sub]

theorem refund_eq_drain (budget : Budget) (bytes : UInt64) :
    budget.refund bytes = budget.drain bytes.toNat := by
  have used := toNat_used_drain budget bytes.toNat
  rw [← toNat_used_refund, UInt64.toNat_inj] at used
  exact congrArg (Budget.mk budget.limit) used.symm

end Budget

/-- What entries weigh on the budget. -/
def Line.weight (line : Line) : Nat := (line.map fun e => e.2.weight).sum

/-! Changes -/

namespace Change

/-- What the entries weigh whose places changes fall on. -/
def freed (entries : Entries) (changes : List Change) : Nat :=
  (changes.map fun change => (entries.get? change.key).elim 0 Entry.weight).sum

/-- The changes fall on different places and leave nothing there that weighs on the budget. -/
structure Lighten (entries : Entries) (changes : List Change) : Prop where
  apart : (changes.map key).Nodup
  light : ∀ change ∈ changes, ∀ entry,
    change.outcome (entries.get? change.key) = some entry → entry.qos0Bytes? = none

variable {entries : Entries} {gone : Line} (there : ∀ e ∈ gone, entries.get? e.1 = some e.2)

include there in
/-- Deleting entries frees what they weigh. -/
theorem freed_deletes : freed entries (gone.map fun e => .delete e.1) = Line.weight gone := by
  rw [freed, List.map_map]
  refine congrArg List.sum (List.map_congr_left fun e member => ?_)
  have found : entries.get? (delete e.1).key = some e.2 := there e member
  rw [Function.comp, found]
  rfl

theorem lighten_deletes (apart : (gone.map Prod.fst).Nodup) :
    Lighten entries (gone.map fun e => .delete e.1) where
  apart := by
    rw [List.map_map]
    exact apart
  light := by
    intro change member entry left
    obtain ⟨e, -, rfl⟩ := List.mem_map.mp member
    cases left

end Change

namespace Bucket

variable {bucket : Bucket} {changes : List Change}

theorem budget_put_of_light {after : Option Entry} {key : EntryKey}
    (light : ∀ entry, after = some entry → entry.qos0Bytes? = none) (budget : Budget) :
    (bucket.put budget key after).2 =
      budget.drain ((bucket.entries.get? key).elim 0 Entry.weight) := by
  have cleared : (bucket.detach budget key).2.1 =
      budget.drain ((bucket.entries.get? key).elim 0 Entry.weight) := by
    cases found : bucket.entries.get? key with
    | none => rw [detach_of_get?_eq_none found, Option.elim, Budget.drain_zero]
    | some entry =>
      rw [detach_of_get?_eq_some found, Option.elim, Entry.weight]
      cases entry.qos0Bytes? with
      | none => exact (budget.drain_zero).symm
      | some bytes => exact budget.refund_eq_drain bytes
  cases after with
  | none => exact cleared
  | some entry => simp only [put, occupy_eq, light entry rfl, Option.elim, cleared]

theorem budget_applyAll_of_lighten (lighten : Change.Lighten bucket.entries changes)
    (budget : Budget) :
    (bucket.applyAll budget changes).2.1 =
      budget.drain (Change.freed bucket.entries changes) := by
  induction changes generalizing bucket budget with
  | nil => exact (budget.drain_zero).symm
  | cons change changes ih =>
    obtain ⟨apart, light⟩ := lighten
    obtain ⟨fresh, apart⟩ := List.nodup_cons.mp apart
    obtain ⟨first, others⟩ := List.forall_mem_cons.mp light
    have same : ∀ other ∈ changes, (bucket.apply budget change).1.entries.get? other.key =
        bucket.entries.get? other.key := by
      intro other member
      rw [entries_apply, Change.get?_act_of_ne]
      intro equal
      exact fresh (List.mem_map.mpr ⟨other, member, equal⟩)
    have rest : Change.Lighten (bucket.apply budget change).1.entries changes :=
      ⟨apart, fun other member => by rw [same other member]; exact others other member⟩
    have refunded : (bucket.apply budget change).2.1 =
        budget.drain ((bucket.entries.get? change.key).elim 0 Entry.weight) := by
      rw [apply_eq]
      exact budget_put_of_light first budget
    have freed : Change.freed (bucket.apply budget change).1.entries changes =
        Change.freed bucket.entries changes := by
      rw [Change.freed, List.map_congr_left fun other member => by rw [same other member]]
      rfl
    rw [applyAll]
    refine (ih rest _).trans ?_
    rw [refunded, Budget.drain_drain, freed]
    rfl

end Bucket

namespace Store

variable {store : Store} {index : Nat} {bucket : Bucket} {changes : List Change}

/-- A bucket that was put at an index is found there. -/
theorem bucket_of_set {after : Store} {left : Bucket} (opened : store.bucket index = .ok bucket)
    (replaced : after.buckets = store.buckets.setIfInBounds index left)
    (closed : after.closed = store.closed) : after.bucket index = .ok left := by
  have found := getElem?_set_self (getElem?_of_bucket opened) left
  rw [Store.bucket] at opened
  split at opened
  · cases opened
  · rename_i still
    rw [Store.bucket, closed, if_neg still, replaced, found]

/-- A commit that is not refused makes its changes, and gives back what they free. -/
theorem exists_commit (its : bucket.Kept) (found : store.buckets[index]? = some bucket)
    (taken : bucket.refusal? changes = none)
    (lawful : Change.LawfulAlong bucket.entries changes)
    (lighten : Change.Lighten bucket.entries changes) :
    ∃ left : Bucket, left.Kept ∧ left.entries = Change.actAll bucket.entries changes ∧
      store.commit index bucket changes = (.ok (), { store with
        buckets := store.buckets.setIfInBounds index left
        budget := store.budget.drain (Change.freed bucket.entries changes)
        outbox.released := store.outbox.released ++
          (Change.displacedAll bucket.entries changes).filterMap Entry.payload?
        outbox.committed := store.outbox.committed ++ changes }) := by
  rcases commit_cases its found changes with ⟨fault, failed⟩ | ⟨left, budget, committed, done⟩
  · obtain ⟨budget, same⟩ := Bucket.commit_of_refusal?_eq_none taken store.budget store.disk
    simp [commit, same] at failed
  · refine ⟨left, its.committed lawful committed, committed.entries, ?_⟩
    have drained : budget = store.budget.drain (Change.freed bucket.entries changes) := by
      cases committed with
      | idle nothing =>
        rw [nothing]
        exact (store.budget.drain_zero).symm
      | @written batches journal =>
        have same : Change.Lighten { bucket with journal }.entries changes := lighten
        exact Bucket.budget_applyAll_of_lighten same _
    rw [done, drained]
    rfl

end Store

end DeliveryQueue
