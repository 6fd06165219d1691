import DeliveryQueue.Proofs.Weight
import Mathlib.Data.List.Infix

/-!
Restarting. At any time a store may be dropped and another opened over its journals, which then
holds the same entries, answers alike (`Store.Alike`) and draws higher numbers.
-/
namespace DeliveryQueue

namespace Bucket

/-- The buckets hold the same entries and give the same answers. -/
structure Alike (old new : Bucket) : Prop where
  entries : new.entries = old.entries
  size : ∀ queue, new.size queue = old.size queue
  classSize : ∀ queue messageClass,
    new.classSize queue messageClass = old.classSize queue messageClass
  inFlightKey? : ∀ queue id, new.inFlightKey? queue id = old.inFlightKey? queue id
  oldestEvictable? : ∀ queue messageClass,
    new.oldestEvictable? queue messageClass = old.oldestEvictable? queue messageClass
  oldestQos0? : new.oldestQos0? = old.oldestQos0?

variable {old new : Bucket}

theorem Agrees.holder?_of_entries_eq (first : old.Agrees) (second : new.Agrees)
    (same : new.entries = old.entries) {queue : QueueKey} {id : UInt16} {sequence : UInt64}
    (held : old.holder? queue id = some sequence) : new.holder? queue id = some sequence := by
  obtain ⟨entry, stored, carries⟩ := first.indexed.holders held
  exact second.traced (same ▸ stored) carries

/-- What agrees with the entries is determined by them. -/
theorem Agrees.alike (first : old.Agrees) (second : new.Agrees)
    (same : new.entries = old.entries) : old.Alike new := by
  have classSize (queue : QueueKey) (messageClass : MessageClass) :
      new.classSize queue messageClass = old.classSize queue messageClass := by
    rw [classSize_eq, classSize_eq, first.indexed.counts, second.indexed.counts, same]
  have holder (queue : QueueKey) (id : UInt16) : new.holder? queue id = old.holder? queue id := by
    refine Option.ext fun sequence => ⟨?_, ?_⟩
    · exact second.holder?_of_entries_eq first same.symm
    · exact first.holder?_of_entries_eq second same
  have ages : new.qos0ByAge = old.qos0ByAge := by
    refine Table.ext_get? fun age => ?_
    have here := first.indexed.ages age.entryKey
    have there := second.indexed.ages age.entryKey
    rw [same] at there
    exact there.trans here.symm
  refine ⟨same, ?_, classSize, ?_, ?_, ?_⟩
  · intro queue
    rw [size_eq, size_eq, classSize, classSize]
  · intro queue id
    rw [inFlightKey?_eq, inFlightKey?_eq, holder]
  · intro queue messageClass
    rw [oldestEvictable?, oldestEvictable?, queueEntries, queueEntries, same]
  · rw [oldestQos0?, oldestQos0?, ages]

end Bucket

namespace Store

/-- The stores hold the same and give the same answers, and the new one goes on above the numbers of
its entries. -/
structure Alike (old new : Store) : Prop where
  size : new.buckets.size = old.buckets.size
  buckets : ∀ ⦃index : Nat⦄ ⦃bucket : Bucket⦄, old.buckets[index]? = some bucket →
    ∃ other, new.buckets[index]? = some other ∧ bucket.Alike other
  used : new.budget.used = old.budget.used
  ahead : ∀ ⦃index : Nat⦄ ⦃bucket : Bucket⦄, new.buckets[index]? = some bucket →
    ∀ ⦃key entry⦄, bucket.entries.get? key = some entry → key.sequence < new.sequence.next

variable {store after : Store} {handed bound : Nat}

theorem Reopened.alike {settings : Settings} {disk : Disk}
    (h : Reopened (blank settings disk) store.buckets.toList after) (kept : store.Kept)
    (weighed : store.Weighed handed) (light : handed < UInt64.size) (under : store.Under bound)
    (room : bound < UInt64.size) : store.Alike after := by
  constructor
  · apply h.size.trans
    rw [Array.length_toList]
    exact Nat.zero_add _
  · intro index bucket found
    rcases h.getElem?_blank index with ⟨nothing, _⟩ | ⟨old, new, before, there, revived⟩
    · rw [Array.getElem?_toList, found] at nothing
      cases nothing
    · rw [Array.getElem?_toList, found] at before
      cases before
      exact ⟨new, there, (kept found).agrees.alike revived.kept.agrees revived.entries⟩
  · have opened := h.weighed (blank_weighed settings disk) (blank_kept settings disk)
      (by rw [Nat.zero_add]; exact Nat.lt_of_le_of_lt weighed.loads light)
    have same : (after.total fun bucket => bucket.entries.weight) =
        store.total fun bucket => bucket.entries.weight := by
      have revived := h.total Table.weight
      simpa [Store.total, blank] using revived
    exact UInt64.toNat_inj.mp (by rw [opened.exact, weighed.exact, same])
  · intro index bucket found key entry stored
    exact UInt64.lt_iff_toNat_lt.mpr ((h.under (forall_toList under) room found).stored stored)

/-- Buckets that can be read are opened again. -/
theorem exists_ofJournals (kept : store.Kept) (weighed : store.Weighed handed)
    (some_ : store.buckets.size ≠ 0) {settings : Settings} (valid : settings.validate = .ok ())
    (disk : Disk) : ∃ used after, ofJournals settings store.journals disk = .ok after ∧
      Reopened (blank used disk) store.buckets.toList after := by
  have length : store.journals.length = store.buckets.size := by simp [journals]
  have fits : { settings with bucketCount := store.journals.length }.validate = .ok () := by
    unfold Settings.validate at valid ⊢
    rw [length, if_neg some_]
    split at valid
    · cases valid
    · exact valid
  have whole := forall_toList kept
  obtain ⟨after, opened⟩ := exists_reopened whole (forall_toList weighed.readable)
    (blank { settings with bucketCount := store.journals.length } disk)
  refine ⟨_, after, ?_, reopened_of_foldlM whole opened⟩
  simp only [ofJournals, fits]
  exact opened

end Store

namespace World

/-- Whatever happened, another store can be opened over the journals, and it is like the first. -/
theorem restart_brings_back_state {settings : Settings} {disk : Disk} {store : Store}
    (opened : Store.inMemory settings disk = .ok store) (payloads : Payloads) (events : List Event)
    (small : ∀ front, front <+: events → ((start store payloads).run front).store.Small)
    (few : ((start store payloads).run events).drawn < 2 ^ 63)
    (light : qos0Weight (events.filterMap Event.offer?) < 2 ^ 64)
    {later : Settings} (valid : later.validate = .ok ()) (place : Disk) :
    let world := (start store payloads).run events
    ∃ after, Store.ofJournals later world.store.journals place = .ok after ∧
      world.store.Alike after := by
  have kept := (run_orderly opened payloads events).kept
  have offered := offers_run (start store payloads) events
  change _ = events.filterMap Event.offer? at offered
  rw [← offered] at light
  have weighed := run_weighed opened payloads events small light
  have some_ : ((start store payloads).run events).store.buckets.size ≠ 0 := by
    rw [size_run opened]
    exact Store.bucketCount_ne_zero opened
  have ahead := run_ahead opened payloads events few
  obtain ⟨used, after, done, reopened⟩ := Store.exists_ofJournals kept weighed some_ valid place
  exact ⟨after, done, reopened.alike kept weighed light ahead.under (UInt64.toNat_lt _)⟩

theorem restart_brings_back_sample :
    ∃ after, Store.ofJournals .single ((start .single .empty).run sample).store.journals
      .empty = .ok after ∧ ((start .single .empty).run sample).store.Alike after := by
  have small : ∀ front ∈ sample.inits, ((start .single .empty).run front).store.Small := by
    decide +kernel
  exact restart_brings_back_state Store.inMemory_single .empty sample
    (fun front first => small front ((List.mem_inits front sample).mpr first)) (by decide +kernel)
    (by decide +kernel) rfl .empty

end World

end DeliveryQueue
