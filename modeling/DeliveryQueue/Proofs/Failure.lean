import DeliveryQueue.Dispatcher
import DeliveryQueue.Proofs.Compaction
import DeliveryQueue.Proofs.Untouched

/-!
Requests that fail. One about a queue leaves everything as it was (`Store.Untouched`). Cleaning up a
bucket can also fail after its sweep, when no snapshot can be put in the place of the journal; then
the sweep stands (`Store.SweptOnly`).
-/
namespace DeliveryQueue

namespace Store

variable {store after : Store} {index : Nat} {bucket : Bucket} {fault : QueueFault}

/-! Cleaning up -/

/-- The waiting entries of a bucket that have expired, in the order in which a sweep takes them. -/
def staleEntries (bucket : Bucket) (now : UInt64) : List (EntryKey × Entry) :=
  bucket.queueKeys.flatMap fun queue =>
    (bucket.queueEntries queue).filter fun e => e.2.isStale now

theorem staleKeys_eq (bucket : Bucket) (now : UInt64) :
    staleKeys bucket now = (staleEntries bucket now).map Prod.fst :=
  List.map_flatMap.symm

theorem mem_staleEntries {now : UInt64} (indexed : bucket.Indexed) {e : EntryKey × Entry} :
    e ∈ staleEntries bucket now ↔ e ∈ bucket.entries.bindings ∧ e.2.isStale now = true := by
  constructor
  · intro stale
    obtain ⟨queue, _, member⟩ := List.mem_flatMap.mp stale
    obtain ⟨listed, expired⟩ := List.mem_filter.mp member
    exact ⟨(List.mem_filter.mp listed).1, expired⟩
  · rintro ⟨there, expired⟩
    obtain ⟨counts, counted, _⟩ := indexed.faithful.covered (Table.mem_bindings_iff.mp there)
    have known : e.1.queue ∈ bucket.queueKeys :=
      List.mem_map.mpr ⟨_, Table.mem_bindings_iff.mpr counted, rfl⟩
    exact List.mem_flatMap.mpr ⟨e.1.queue, known,
      List.mem_filter.mpr ⟨List.mem_filter.mpr ⟨there, by simp⟩, expired⟩⟩

theorem perm_staleEntries (indexed : bucket.Indexed) (now : UInt64) :
    (staleEntries bucket now).Perm (bucket.entries.bindings.filter fun e => e.2.isStale now) := by
  have apart : (staleEntries bucket now).Nodup :=
    .of_map Prod.fst (staleKeys_eq bucket now ▸ nodup_staleKeys bucket now)
  refine (List.perm_ext_iff_of_nodup apart (bucket.entries.bindings_nodup.filter _)).mpr ?_
  intro e
  rw [mem_staleEntries indexed, List.mem_filter]

/-- Deleting what has expired leaves what has not. -/
theorem actAll_staleKeys (indexed : bucket.Indexed) (now : UInt64) :
    Change.actAll bucket.entries ((staleKeys bucket now).map .delete) =
      bucket.entries.filter fun _ entry => !entry.isStale now := by
  apply Table.ext_get?
  intro key
  have keys : ((staleKeys bucket now).map Change.delete).map Change.key = staleKeys bucket now := by
    rw [List.map_map]
    exact List.map_id _
  rw [Table.get?_filter]
  by_cases stale : key ∈ staleKeys bucket now
  · obtain ⟨entry, there, expired⟩ := mem_staleKeys stale
    have gone : (Change.actAll bucket.entries ((staleKeys bucket now).map .delete)).get? key =
        none := Change.get?_actAll_of_mem (by rw [keys]; exact nodup_staleKeys bucket now)
          (List.mem_map_of_mem stale)
    have none : (bucket.entries.get? key).filter (fun entry => !entry.isStale now) = none := by
      simp [there, expired]
    exact gone.trans none.symm
  · have same : (Change.actAll bucket.entries ((staleKeys bucket now).map .delete)).get? key =
        bucket.entries.get? key := by
      apply Change.get?_actAll_of_forall_ne
      rintro _ member rfl
      obtain ⟨other, listed, rfl⟩ := List.mem_map.mp member
      exact stale listed
    rw [same]
    cases there : bucket.entries.get? key with
    | none => rfl
    | some entry =>
      have fresh : entry.isStale now = false := by
        by_contra expired
        rw [Bool.not_eq_false] at expired
        have listed := (mem_staleEntries indexed).mpr ⟨Table.mem_bindings_iff.mpr there, expired⟩
        exact stale (staleKeys_eq bucket now ▸ List.mem_map_of_mem listed)
      rw [Option.filter_some_pos (by rw [fresh]; rfl)]

/-- Deletions at different keys take out what stands there. -/
theorem displacedAll_deletes {entries : Entries} {gone : List (EntryKey × Entry)}
    (apart : (gone.map Prod.fst).Nodup) (there : ∀ e ∈ gone, entries.get? e.1 = some e.2) :
    Change.displacedAll entries ((gone.map Prod.fst).map .delete) = gone.map Prod.snd := by
  induction gone generalizing entries with
  | nil => rfl
  | cons e gone ih =>
    obtain ⟨fresh, others⟩ := List.nodup_cons.mp apart
    obtain ⟨first, rest⟩ := List.forall_mem_cons.mp there
    have after : ∀ other ∈ gone,
        ((Change.delete e.1).act entries).get? other.1 = some other.2 := by
      intro other member
      rw [Change.get?_act_of_ne, rest other member]
      rintro same
      exact fresh (List.mem_map.mpr ⟨other, member, same⟩)
    have out : (Change.delete e.1).displaced (entries.get? (Change.delete e.1).key) = some e.2 :=
      first
    rw [List.map_cons, List.map_cons, Change.displacedAll, out, ih others after]
    rfl

end Store

namespace Journal

end Journal

namespace Bucket

variable {bucket : Bucket}

/-- What a commit that succeeds adds to the journal. -/
theorem held?_of_commit {batches : List Bytes} {budget : Budget} {disk : Disk}
    {changes : List Change} {displaced : List Entry}
    (held : bucket.journal.held? = some batches)
    (done : (bucket.commit budget disk changes).answer = .ok displaced) :
    (bucket.commit budget disk changes).bucket.journal.held? =
      some (batches ++ if changes = [] then [] else [Batch.bytes changes]) := by
  by_cases idle : changes = []
  · simp [commit, idle, held]
  · have busy : changes.isEmpty = false := by simpa using idle
    rw [if_neg idle]
    cases encoded : Batch.encode changes with
    | error fault => simp [commit, busy, encoded] at done
    | ok batch =>
      obtain ⟨-, rfl⟩ := Batch.encode_eq_ok_iff.mp encoded
      rcases Journal.append_cases held disk (Batch.bytes changes) with
        ⟨fault, failed⟩ | ⟨journal, longer, written⟩
      · simp [commit, busy, encoded, failed] at done
      · have frame := applyAll_frame { bucket with journal } budget changes
        simp [commit, busy, encoded, written, frame.2.1, longer]

/-- Just the queues without entries are forgotten. -/
theorem Indexed.forgotten (indexed : bucket.Indexed) (queue : QueueKey) :
    bucket.forgetEmptyQueues.counts? queue = none ↔ bucket.queueEntries queue = [] := by
  constructor
  · exact indexed.forgetEmptyQueues.faithful.empty queue
  · intro bare
    have zero (messageClass : MessageClass) :
        (bucket.countsOf queue).ofClass messageClass = 0 := by
      rw [← classSize_eq, indexed.faithful.counts, bare]
      rfl
    have size : (bucket.countsOf queue).size = 0 :=
      Nat.add_eq_zero_iff.mpr ⟨zero .qos0, zero .qos12⟩
    cases counted : bucket.queues.get? queue with
    | none => simp [counts?, Bucket.forgetEmptyQueues, Table.get?_filter, counted]
    | some counts =>
      have same : bucket.countsOf queue = counts := by rw [countsOf, counts?, counted]; rfl
      rw [same] at size
      simp [counts?, Bucket.forgetEmptyQueues, Table.get?_filter, counted, Option.filter, size]

end Bucket

namespace Store

variable {store after : Store} {index : Nat} {bucket left : Bucket} {fault : QueueFault}
variable {changes : List Change} {now : UInt64}

theorem deletes_staleKeys (bucket : Bucket) (now : UInt64) :
    (staleKeys bucket now).map Change.delete =
      (staleEntries bucket now).map fun e => .delete e.1 := by
  rw [staleKeys_eq, List.map_map]
  rfl

theorem length_staleKeys (bucket : Bucket) (now : UInt64) :
    (staleKeys bucket now).length = (staleEntries bucket now).length := by
  rw [staleKeys_eq, List.length_map]

theorem displaced_staleKeys (indexed : bucket.Indexed) (now : UInt64) :
    Change.displacedAll bucket.entries ((staleKeys bucket now).map .delete) =
      (staleEntries bucket now).map Prod.snd := by
  rw [staleKeys_eq]
  refine displacedAll_deletes (staleKeys_eq bucket now ▸ nodup_staleKeys bucket now) ?_
  intro e stale
  exact Table.mem_bindings_iff.mp ((mem_staleEntries indexed).mp stale).1

/-- The store is reached by some run that began with fresh journals. -/
def Reached (store : Store) : Prop :=
  ∃ settings disk first payloads events, inMemory settings disk = .ok first ∧
    store = ((World.start first payloads).run events).store

theorem Reached.kept (reached : store.Reached) : store.Kept := by
  obtain ⟨settings, disk, first, payloads, events, started, same⟩ := reached
  exact same ▸ (World.run_orderly started payloads events).kept

theorem Reached.writable (reached : store.Reached) : store.Writable := by
  obtain ⟨settings, disk, first, payloads, events, started, same⟩ := reached
  exact same ▸ World.run_writable started payloads events

end Store

end DeliveryQueue
