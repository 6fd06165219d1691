import DeliveryQueue.Proofs.Handing
import DeliveryQueue.Proofs.Independence
import DeliveryQueue.Proofs.Lightening
import DeliveryQueue.Proofs.Order

/-!
Acknowledgements, once and again. What replacing and removing do hangs on the one entry that holds
the packet id, if there is one, and doing the same once more does nothing
(`World.acknowledgements_settle`).
-/
namespace DeliveryQueue

open Std

namespace Bucket

variable {bucket left : Bucket} {key : EntryKey} {id : UInt16}

/-- An entry that is put in the place of another leaves the queues as long as they were. -/
theorem length_queueEntries_insert {before entry : Entry}
    (there : bucket.entries.get? key = some before)
    (entries : left.entries = bucket.entries.insert key entry) (queue : QueueKey) :
    (left.queueEntries queue).length = (bucket.queueEntries queue).length := by
  have new := (Table.bindings_insert_perm bucket.entries key entry).filter
    fun e => decide (e.1.queue = queue)
  have old := (Table.bindings_perm_of_get? there).filter fun e => decide (e.1.queue = queue)
  rw [queueEntries, queueEntries, entries, new.length_eq, old.length_eq, List.filter_cons,
    List.filter_cons]
  split <;> rfl

/-- An entry that carries the same packet id as the one in whose place it is put is found in its
stead. -/
theorem Agrees.inFlightKey?_insert (agrees : bucket.Agrees) (again : left.Agrees)
    {before entry : Entry} (there : bucket.entries.get? key = some before)
    (entries : left.entries = bucket.entries.insert key entry)
    (same : entry.packetId? = before.packetId?) (queue : QueueKey) (id : UInt16) :
    left.inFlightKey? queue id = bucket.inFlightKey? queue id := by
  ext other
  rw [again.inFlightKey?_eq_some_iff, agrees.inFlightKey?_eq_some_iff, entries]
  by_cases here : other = key
  · subst here
    simp [there, same]
  · rw [Table.get?_insert_of_ne here]

/-- Nothing that agrees with entries finds a packet id that no entry carries. -/
theorem Agrees.inFlightKey?_of_free (agrees : bucket.Agrees) {queue : QueueKey}
    (nobody : ¬ bucket.entries.Carries queue id) : bucket.inFlightKey? queue id = none := by
  by_contra held
  obtain ⟨key, held⟩ := Option.ne_none_iff_exists'.mp held
  obtain ⟨rfl, entry, there, carries⟩ := agrees.inFlightKey?_eq_some_iff.mp held
  exact nobody ⟨key.sequence, entry, there, carries⟩

/-- Once the entry that carried a packet id is gone, none does. -/
theorem not_carries_erase (single : bucket.entries.SingleCarriers) {queue : QueueKey}
    {sequence : UInt64} {entry : Entry}
    (there : bucket.entries.get? ⟨queue, sequence⟩ = some entry)
    (carries : entry.packetId? = some id) :
    ¬ (bucket.entries.erase ⟨queue, sequence⟩).Carries queue id := by
  rintro ⟨other, carrier, found, also⟩
  by_cases here : (⟨queue, other⟩ : EntryKey) = ⟨queue, sequence⟩
  · rw [here, Table.get?_erase_self] at found
    cases found
  · rw [Table.get?_erase_of_ne here] at found
    exact here (by rw [single found also there carries])

end Bucket

namespace Store

variable {store after : Store} {index : Nat} {bucket left : Bucket} {client : String}
variable {id : UInt16} {sequence : UInt64} {expected : Option String}

/-! What is asked of the bucket -/

section Asked
variable (opened : store.bucket index = .ok bucket) (agrees : bucket.Agrees)
include opened agrees

theorem replace_of_free (nobody : ¬ bucket.entries.Carries ⟨client, false⟩ id) :
    store.replace client id index =
      ((store.enqueuePubrel ⟨client, false⟩ id index bucket).1.map fun () => none,
        (store.enqueuePubrel ⟨client, false⟩ id index bucket).2) := by
  simp only [replace, opened, agrees.inFlightKey?_of_free nobody]

theorem replace_of_publish {stored : StoredPublish}
    (there : bucket.entries.get? ⟨⟨client, false⟩, sequence⟩ = some (.publish stored))
    (carries : stored.packetId = some id) :
    store.replace client id index =
      ((store.commit index bucket [.release ⟨⟨client, false⟩, sequence⟩ id]).1.map
          fun () => some stored.uniqueId,
        (store.commit index bucket [.release ⟨⟨client, false⟩, sequence⟩ id]).2) := by
  have held := agrees.inFlightKey?_eq_some_iff.mpr ⟨rfl, _, there, carries⟩
  simp only [replace, opened, held, there]

theorem replace_of_pubrel
    (there : bucket.entries.get? ⟨⟨client, false⟩, sequence⟩ = some (.pubrel id)) :
    store.replace client id index = (.ok none, store) := by
  have held := agrees.inFlightKey?_eq_some_iff.mpr ⟨rfl, _, there, rfl⟩
  simp only [replace, opened, held, there]

theorem remove_of_free (nobody : ¬ bucket.entries.Carries ⟨client, false⟩ id)
    (expected : Option String) : store.remove client id expected index = (.ok none, store) := by
  simp only [remove, opened, agrees.inFlightKey?_of_free nobody]

theorem remove_of_carrier {entry : Entry}
    (there : bucket.entries.get? ⟨⟨client, false⟩, sequence⟩ = some entry)
    (carries : entry.packetId? = some id) (expected : Option String) :
    store.remove client id expected index =
      if expected = none ∨ entry.uniqueId? = expected then
        ((store.commit index bucket [.delete ⟨⟨client, false⟩, sequence⟩]).1.map
            fun () => entry.uniqueId?,
          (store.commit index bucket [.delete ⟨⟨client, false⟩, sequence⟩]).2)
      else (.ok none, store) := by
  have held := agrees.inFlightKey?_eq_some_iff.mpr ⟨rfl, _, there, carries⟩
  simp only [remove, opened, held, there, Option.bind_some]
  cases expected with
  | none => simp
  | some text => by_cases same : entry.uniqueId? = some text <;> simp [same]

end Asked

/-! What becomes of the store -/

/-- A PUBREL stands in the place of a message that was in flight. -/
structure Substituted (store : Store) (index : Nat) (bucket : Bucket) (key : EntryKey)
    (stored : StoredPublish) (id : UInt16) (left : Bucket) (after : Store) : Prop where
  entries : left.entries = bucket.entries.insert key (.pubrel id)
  size : ∀ queue, left.size queue = bucket.size queue
  inFlight : ∀ queue other, left.inFlightKey? queue other = bucket.inFlightKey? queue other
  state : after = { store with
    buckets := store.buckets.setIfInBounds index left
    budget := store.budget.drain (Entry.publish stored).weight
    outbox.released := store.outbox.released ++ [stored.payload]
    outbox.committed := store.outbox.committed ++ [.release key id] }

/-- A PUBREL was added under the next number. Whatever stood there is settled. -/
structure Added (store : Store) (index : Nat) (bucket : Bucket) (queue : QueueKey)
    (id : UInt16) (left : Bucket) (after : Store) : Prop where
  entries : left.entries = bucket.entries.insert ⟨queue, store.sequence.next⟩ (.pubrel id)
  state : after = { store with
    sequence := store.sequence.advance
    buckets := store.buckets.setIfInBounds index left
    budget := store.budget.drain
      ((bucket.entries.get? ⟨queue, store.sequence.next⟩).elim 0 Entry.weight)
    outbox.released := store.outbox.released ++
      ((bucket.entries.get? ⟨queue, store.sequence.next⟩).bind Entry.payload?).toList
    outbox.committed := store.outbox.committed ++
      [.insert ⟨queue, store.sequence.next⟩ (.pubrel id)] }

/-- The next number was free, and behind all entries of the store, so that a PUBREL under it is the
last of its queue. -/
structure Last (store : Store) (bucket : Bucket) (queue : QueueKey) (id : UInt16)
    (left : Bucket) : Prop where
  free : bucket.entries.get? ⟨queue, store.sequence.next⟩ = none
  last : left.queueEntries queue =
    bucket.queueEntries queue ++ [(⟨queue, store.sequence.next⟩, .pubrel id)]
  behind : ∀ place key entry, store.entryAt place key = some entry →
    key.sequence < store.sequence.next

/-- An entry was deleted. -/
structure Deleted (store : Store) (index : Nat) (bucket : Bucket) (key : EntryKey) (entry : Entry)
    (left : Bucket) (after : Store) : Prop where
  entries : left.entries = bucket.entries.erase key
  state : after = { store with
    buckets := store.buckets.setIfInBounds index left
    budget := store.budget.drain entry.weight
    outbox.released := store.outbox.released ++ entry.payload?.toList
    outbox.committed := store.outbox.committed ++ [.delete key] }

section Settles
variable (its : bucket.Kept) (opened : store.bucket index = .ok bucket) {bytes : Bytes}
  (accepts : (bucket.journal.append store.disk bytes).answer = .ok ())
include its opened accepts

/-- A single change that writes no more than the id of the client, is lawful and brings nothing in
on the budget. -/
theorem exists_commit_single (change : Change) (fits : Batch.fits client = true)
    (texts : Batch.changeTexts change = [(.queueId, client)])
    (lawful : Change.Lawful bucket.entries change)
    (light : ∀ entry, change.outcome (bucket.entries.get? change.key) = some entry →
      entry.qos0Bytes? = none) :
    ∃ left : Bucket, left.Kept ∧ left.entries = change.act bucket.entries ∧
      store.commit index bucket [change] = (.ok (), { store with
        buckets := store.buckets.setIfInBounds index left
        budget := store.budget.drain ((bucket.entries.get? change.key).elim 0 Entry.weight)
        outbox.released := store.outbox.released ++
          ((change.displaced (bucket.entries.get? change.key)).bind Entry.payload?).toList
        outbox.committed := store.outbox.committed ++ [change] }) := by
  obtain ⟨batches, held, -⟩ := its.recalled
  have short : Batch.Fits ([change].flatMap Batch.changeTexts) := by
    simpa [texts, Batch.Fits] using fits
  have taken := Bucket.refusal?_eq_none_of_append held accepts short
  have lighten : Change.Lighten bucket.entries [change] :=
    ⟨List.nodup_singleton _, by simpa using light⟩
  obtain ⟨left, kept, entries, done⟩ :=
    exists_commit its (getElem?_of_bucket opened) taken ⟨lawful, trivial⟩ lighten
  refine ⟨left, kept, entries, done.trans ?_⟩
  have freed : Change.freed bucket.entries [change] =
      (bucket.entries.get? change.key).elim 0 Entry.weight := Nat.add_zero _
  have out : (Change.displacedAll bucket.entries [change]).filterMap Entry.payload? =
      ((change.displaced (bucket.entries.get? change.key)).bind Entry.payload?).toList := by
    rw [Change.displacedAll, Change.displacedAll, List.append_nil]
    cases change.displaced (bucket.entries.get? change.key) with
    | none => rfl
    | some entry => cases payload : entry.payload? <;> simp [payload]
  rw [freed, out]

/-- Replacing a message in flight. -/
theorem exists_substituted {stored : StoredPublish}
    (there : bucket.entries.get? ⟨⟨client, false⟩, sequence⟩ = some (.publish stored))
    (carries : stored.packetId = some id) (fits : Batch.fits client = true) :
    ∃ left after, store.replace client id index = (.ok (some stored.uniqueId), after) ∧
      left.Kept ∧ after.bucket index = .ok left ∧
      store.Substituted index bucket ⟨⟨client, false⟩, sequence⟩ stored id left after := by
  obtain ⟨left, kept, entries, done⟩ := exists_commit_single its opened accepts
    (.release ⟨⟨client, false⟩, sequence⟩ id) fits rfl
    ((Edit.release there carries).lawful its.sound) (by rintro entry ⟨⟩; rfl)
  rw [replace_of_publish opened its.agrees there carries, done]
  refine ⟨left, _, rfl, kept, bucket_of_set opened rfl rfl, entries, ?_, ?_, ?_⟩
  · intro queue
    rw [kept.agrees.size_eq_length, its.agrees.size_eq_length,
      Bucket.length_queueEntries_insert there entries]
  · exact its.agrees.inFlightKey?_insert kept.agrees there entries carries.symm
  · simp only [Change.key, there, Change.displaced]
    rfl

/-- Deleting the entry that carries a packet id. -/
theorem exists_deleted {entry : Entry}
    (there : bucket.entries.get? ⟨⟨client, false⟩, sequence⟩ = some entry)
    (fits : Batch.fits client = true) :
    ∃ left after, left.Kept ∧ after.bucket index = .ok left ∧
      store.commit index bucket [.delete ⟨⟨client, false⟩, sequence⟩] = (.ok (), after) ∧
      store.Deleted index bucket ⟨⟨client, false⟩, sequence⟩ entry left after := by
  obtain ⟨left, kept, entries, done⟩ := exists_commit_single its opened accepts
    (.delete ⟨⟨client, false⟩, sequence⟩) fits rfl
    ((Edit.delete there).lawful its.sound) (by rintro entry ⟨⟩)
  refine ⟨left, _, kept, ?_, done, entries, ?_⟩
  · exact bucket_of_set opened rfl rfl
  · simp only [Change.key, there, Change.displaced]
    rfl

/-- Replacing where nothing holds the packet id. -/
theorem exists_added (free : ¬ bucket.entries.Carries ⟨client, false⟩ id)
    (fits : Batch.fits client = true) :
    ∃ left after, store.replace client id index = (.ok none, after) ∧ left.Kept ∧
      after.bucket index = .ok left ∧
      store.Added index bucket ⟨client, false⟩ id left after ∧
      (store.Under store.sequence.next.toNat → store.Last bucket ⟨client, false⟩ id left) := by
  let key : EntryKey := ⟨⟨client, false⟩, store.sequence.next⟩
  have lawful : Change.LawfulAlong bucket.entries [.insert key (.pubrel id)] :=
    lawfulAlong_pubrel its.sound free
  have advanced : { store with sequence := store.sequence.advance }.bucket index = .ok bucket :=
    opened
  obtain ⟨left, kept, entries, done⟩ := exists_commit_single its advanced accepts
    (.insert key (.pubrel id)) fits rfl lawful.1 (by rintro entry ⟨⟩; rfl)
  have entries : left.entries = bucket.entries.insert key (.pubrel id) := entries
  rw [replace_of_free opened its.agrees free, enqueuePubrel, done]
  refine ⟨left, _, rfl, kept, bucket_of_set opened rfl rfl, ⟨entries, rfl⟩, ?_⟩
  · intro under
    refine ⟨(under (getElem?_of_bucket opened)).fresh key (Nat.le_refl _), ?_, ?_⟩
    · rw [Bucket.queueEntries, entries, Bucket.queueEntries]
      refine Table.filter_insert key (.pubrel id) fun e stored _ => UInt64.lt_iff_toNat_lt.mpr ?_
      exact (under (getElem?_of_bucket opened)).stored (Table.mem_bindings_iff.mp stored)
    · intro place other entry there
      obtain ⟨entries, found, stored⟩ := Option.bind_eq_some_iff.mp there
      rw [contents, Array.getElem?_map] at found
      obtain ⟨holder, held, rfl⟩ := Option.map_eq_some_iff.mp found
      exact UInt64.lt_iff_toNat_lt.mpr ((under held).stored stored)

/-- What replacing answers and leaves, by the entry that holds the packet id. A PUBREL that is added
is the last as long as the next number is above those of all entries. -/
structure ReplaceEffect (store : Store) (index : Nat) (bucket : Bucket) (client : String)
    (id : UInt16) (ahead : Prop) (answer : Option String) (after : Store) : Prop where
  publish : ∀ sequence stored,
    bucket.entries.get? ⟨⟨client, false⟩, sequence⟩ = some (.publish stored) →
      stored.packetId = some id → answer = some stored.uniqueId ∧
        ∃ left, store.Substituted index bucket ⟨⟨client, false⟩, sequence⟩ stored id left after
  pubrel : ∀ sequence, bucket.entries.get? ⟨⟨client, false⟩, sequence⟩ = some (.pubrel id) →
    answer = none ∧ after = store
  free : ¬ bucket.entries.Carries ⟨client, false⟩ id →
    answer = none ∧ ∃ left, store.Added index bucket ⟨client, false⟩ id left after ∧
      (ahead → store.Last bucket ⟨client, false⟩ id left)
  again : after.replace client id index = (.ok none, after)

/-- What removing answers and leaves, by the entry that holds the packet id and by the unique id
that is expected. -/
structure RemoveEffect (store : Store) (index : Nat) (bucket : Bucket) (client : String)
    (id : UInt16) (expected answer : Option String) (after : Store) : Prop where
  wanted : ∀ sequence entry, bucket.entries.get? ⟨⟨client, false⟩, sequence⟩ = some entry →
    entry.packetId? = some id → expected = none ∨ entry.uniqueId? = expected →
      answer = entry.uniqueId? ∧
        (∃ left, store.Deleted index bucket ⟨⟨client, false⟩, sequence⟩ entry left after) ∧
        ∀ other, after.remove client id other index = (.ok none, after)
  unexpected : ∀ sequence entry, bucket.entries.get? ⟨⟨client, false⟩, sequence⟩ = some entry →
    entry.packetId? = some id → ¬ (expected = none ∨ entry.uniqueId? = expected) →
      answer = none ∧ after = store
  free : ¬ bucket.entries.Carries ⟨client, false⟩ id → answer = none ∧ after = store

variable (fits : Batch.fits client = true) (id : UInt16)
include fits

theorem exists_replaceEffect {ahead : Prop}
    (under : ahead → store.Under store.sequence.next.toNat) :
    ∃ answer after, store.replace client id index = (.ok answer, after) ∧
      store.ReplaceEffect index bucket client id ahead answer after := by
  have single := its.sound.single
  by_cases free : bucket.entries.Carries ⟨client, false⟩ id
  · obtain ⟨sequence, entry, there, carries⟩ := free
    have held : bucket.entries.Carries ⟨client, false⟩ id := ⟨sequence, entry, there, carries⟩
    cases entry with
    | publish stored =>
      obtain ⟨left, after, done, kept, found, substituted⟩ :=
        exists_substituted its opened accepts there carries fits
      have last : left.entries.get? ⟨⟨client, false⟩, sequence⟩ = some (.pubrel id) := by
        rw [substituted.entries, Table.get?_insert_self]
      refine ⟨_, after, done, ?_, ?_, absurd held, replace_of_pubrel found kept.agrees last⟩
      · intro other message also too
        obtain rfl := single there carries also too
        cases there.symm.trans also
        exact ⟨rfl, left, substituted⟩
      · intro other also
        obtain rfl := single there carries also rfl
        cases there.symm.trans also
    | pubrel other =>
      cases carries
      have done := replace_of_pubrel opened its.agrees there
      refine ⟨none, store, done, ?_, fun _ _ => ⟨rfl, rfl⟩, absurd held, done⟩
      intro other message also too
      obtain rfl := single there rfl also too
      cases there.symm.trans also
    | taken => cases carries
  · obtain ⟨left, after, done, kept, found, added, last⟩ :=
      exists_added its opened accepts free fits
    have there : left.entries.get? ⟨⟨client, false⟩, store.sequence.next⟩ = some (.pubrel id) := by
      rw [added.entries, Table.get?_insert_self]
    refine ⟨none, after, done, ?_, ?_, ?_, replace_of_pubrel found kept.agrees there⟩
    · intro sequence stored there carries
      exact absurd ⟨sequence, _, there, carries⟩ free
    · intro sequence there
      exact absurd ⟨sequence, _, there, rfl⟩ free
    · intro _
      exact ⟨rfl, left, added, fun ahead => last (under ahead)⟩

theorem exists_removeEffect (expected : Option String) :
    ∃ answer after, store.remove client id expected index = (.ok answer, after) ∧
      store.RemoveEffect index bucket client id expected answer after := by
  by_cases free : bucket.entries.Carries ⟨client, false⟩ id
  · obtain ⟨sequence, entry, there, carries⟩ := free
    have held : bucket.entries.Carries ⟨client, false⟩ id := ⟨sequence, entry, there, carries⟩
    have removes := remove_of_carrier opened its.agrees there carries expected
    -- no other entry of the queue holds the packet id
    have same {other : UInt64} {carrier : Entry}
        (also : bucket.entries.get? ⟨⟨client, false⟩, other⟩ = some carrier)
        (too : carrier.packetId? = some id) : other = sequence ∧ carrier = entry := by
      obtain rfl := its.sound.single there carries also too
      exact ⟨rfl, Option.some.inj (also.symm.trans there)⟩
    by_cases wanted : expected = none ∨ entry.uniqueId? = expected
    · obtain ⟨left, after, kept, found, done, deleted⟩ :=
        exists_deleted its opened accepts there fits
      rw [if_pos wanted, done] at removes
      refine ⟨_, after, removes, ?_, ?_, absurd held⟩
      · intro other carrier also too _
        obtain ⟨rfl, rfl⟩ := same also too
        refine ⟨rfl, ⟨left, deleted⟩, remove_of_free found kept.agrees ?_⟩
        rw [deleted.entries]
        exact Bucket.not_carries_erase its.sound.single there carries
      · intro other carrier also too unwanted
        obtain ⟨rfl, rfl⟩ := same also too
        exact absurd wanted unwanted
    · rw [if_neg wanted] at removes
      refine ⟨none, store, removes, ?_, fun _ _ _ _ _ => ⟨rfl, rfl⟩, absurd held⟩
      intro other carrier also too fine
      obtain ⟨rfl, rfl⟩ := same also too
      exact absurd fine wanted
  · refine ⟨none, store, remove_of_free opened its.agrees free expected, ?_, ?_,
      fun _ => ⟨rfl, rfl⟩⟩ <;>
    · intro sequence entry there carries
      exact absurd ⟨sequence, entry, there, carries⟩ free

end Settles

end Store

namespace World

/-- What an acknowledgement does is up to the entry of the queue that holds the packet id, and doing
it again does nothing. -/
theorem acknowledgements_settle {settings : Settings} {disk : Disk} {store : Store}
    (started : Store.inMemory settings disk = .ok store) (payloads : Payloads)
    (events : List Event) {index : Nat} {bucket : Bucket}
    (opened : ((start store payloads).run events).store.bucket index = .ok bucket) {bytes : Bytes}
    (accepts : (bucket.journal.append ((start store payloads).run events).store.disk
      bytes).answer = .ok ())
    {client : String} (fits : Batch.fits client = true) (id : UInt16) :
    let world := (start store payloads).run events
    (∃ answer after, world.store.replace client id index = (.ok answer, after) ∧
      world.store.ReplaceEffect index bucket client id (world.drawn < 2 ^ 63) answer after) ∧
    ∀ expected, ∃ answer after,
      world.store.remove client id expected index = (.ok answer, after) ∧
        world.store.RemoveEffect index bucket client id expected answer after := by
  have its := (run_orderly started payloads events).kept (Store.getElem?_of_bucket opened)
  have under (few : ((start store payloads).run events).drawn < 2 ^ 63) :=
    (run_ahead started payloads events few).under
  exact ⟨Store.exists_replaceEffect its opened accepts fits id under,
    Store.exists_removeEffect its opened accepts fits id⟩

/-- Two messages are in flight to a client, and the second was received. -/
def midway : List Event :=
  [.ask (.add .client (.publish (.ofQos .exactlyOnce "u1" 1)) 10 .discard 0),
    .ask (.add .client (.publish (.ofQos .exactlyOnce "u2" 2)) 10 .discard 0),
    .ask (.readNew .client [1, 2] 1000 0 0), .ask (.replace "c" 2 0)]

/-- The first message is received, or it is settled; either twice over. -/
theorem acknowledgements_settle_midway :
    let before := ((start .single .empty).run midway).store
    ∃ answer received removed settled,
      before.replace "c" 1 0 = (.ok answer, received) ∧ answer = some "u1" ∧
      received.outbox.released = [1] ∧ received.replace "c" 1 0 = (.ok none, received) ∧
      before.remove "c" 1 (some "u1") 0 = (.ok removed, settled) ∧ removed = some "u1" ∧
      settled.outbox.released = [1] ∧ settled.remove "c" 1 none 0 = (.ok none, settled) := by
  intro before
  let stored : StoredPublish :=
    { StoredPublish.ofPublish (.ofQos .exactlyOnce "u1" 1) with packetId := some 1 }
  have fine : (before.bucket 0).toOption.any (fun bucket =>
      (bucket.journal.append before.disk []).answer.isOk &&
        decide (bucket.entries.get? ⟨.client, Sequence.start⟩ = some (.publish stored))) =
          true := by decide +kernel
  obtain ⟨bucket, opened, accepts, held⟩ := Store.exists_accepting fine
  have held := of_decide_eq_true held
  have fits : Batch.fits "c" = true := by decide
  obtain ⟨⟨answer, received, replaced, effect⟩, removes⟩ :=
    acknowledgements_settle Store.inMemory_single .empty midway opened accepts fits 1
  obtain ⟨answered, left, substituted⟩ := effect.publish _ stored held rfl
  obtain ⟨removed, settled, done, outcome⟩ := removes (some "u1")
  obtain ⟨gone, ⟨rest, deleted⟩, again⟩ := outcome.wanted _ _ held rfl (.inr rfl)
  have released : before.outbox.released = [] := by decide +kernel
  refine ⟨answer, received, removed, settled, replaced, answered, ?_, effect.again, done, gone, ?_,
    again none⟩
  · exact (congrArg (fun store => store.outbox.released) substituted.state).trans
      (congrArg (· ++ [(1 : UInt64)]) released)
  · exact (congrArg (fun store => store.outbox.released) deleted.state).trans
      (congrArg (· ++ [(1 : UInt64)]) released)

/-- Where the numbers begin again at zero, a PUBREL is put before another that was there already. -/
theorem acknowledgements_out_of_order : ¬ ∀ (store : Store) (index : Nat) (bucket : Bucket)
    (bytes : Bytes) (client : String) (id : UInt16), store.Reached →
      store.bucket index = .ok bucket →
      (bucket.journal.append store.disk bytes).answer = .ok () → Batch.fits client = true →
      ¬ bucket.entries.Carries ⟨client, false⟩ id →
        ∃ after left number, store.replace client id index = (.ok none, after) ∧
          after.bucket index = .ok left ∧ left.queueEntries ⟨client, false⟩ =
            bucket.queueEntries ⟨client, false⟩ ++ [(⟨⟨client, false⟩, number⟩, .pubrel id)] := by
  intro always
  obtain ⟨events, begun⟩ := exists_run_singleAt 0xFFFFFFFFFFFFFFFF
  let store : Store := (Store.singleAt 0xFFFFFFFFFFFFFFFF).after (.replace "c" 1 0)
  have reached : store.Reached := by
    refine ⟨.single, .empty, .single, .empty, events ++ [.ask (.replace "c" 1 0)],
      Store.inMemory_single, ?_⟩
    rw [run_concat]
    change _ = Store.after _ _
    rw [begun]
  have fine : (store.bucket 0).toOption.any (fun bucket =>
      (bucket.journal.append store.disk []).answer.isOk &&
        (decide (bucket.inFlightKey? .client 2 = none) &&
          decide ((bucket.queueEntries .client).map Prod.snd = [.pubrel 1]))) = true := by
    decide +kernel
  obtain ⟨bucket, opened, accepts, holds⟩ := Store.exists_accepting fine
  obtain ⟨free, line⟩ := Bool.and_eq_true_iff.mp holds
  have agrees := (reached.kept (Store.getElem?_of_bucket opened)).agrees
  have nobody : ¬ bucket.entries.Carries .client 2 := by
    rintro ⟨sequence, entry, there, carries⟩
    have held := agrees.inFlightKey?_eq_some_iff.mpr ⟨rfl, entry, there, carries⟩
    cases (of_decide_eq_true free).symm.trans held
  obtain ⟨after, left, number, replaced, found, last⟩ :=
    always store 0 bucket [] "c" 2 reached opened accepts (by decide) nobody
  have order : ((store.replace "c" 2 0).2.bucket 0).toOption.map (fun left =>
      (left.queueEntries .client).map Prod.snd) = some [.pubrel 2, .pubrel 1] := by
    decide +kernel
  rw [replaced, found] at order
  have line : (bucket.queueEntries .client).map Prod.snd = [.pubrel 1] := of_decide_eq_true line
  have last : left.queueEntries .client = bucket.queueEntries .client ++ _ := last
  have order : (left.queueEntries .client).map Prod.snd = [.pubrel 2, .pubrel 1] :=
    Option.some.inj order
  rw [last, List.map_append, line] at order
  cases order

end World

end DeliveryQueue
