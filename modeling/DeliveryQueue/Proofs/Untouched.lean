import DeliveryQueue.Proofs.Delivery
import DeliveryQueue.Proofs.Devices
import DeliveryQueue.Proofs.World

/-!
Requests about one queue that fail. A commit that fails changes nothing but, perhaps, the journal
that refused it, so neither does the operation that asked for it: it may have drawn a number, and it
gives up the payload reference of the message that was handed to it (`Store.Untouched`).
-/
namespace DeliveryQueue

namespace Answer

/-- Why a request failed, if it did. -/
def fault? : Answer → Option QueueFault
  | done (.error fault) | messages (.error fault) | inFlight (.error fault)
  | uniqueId (.error fault) | found (.error fault) | count (.error fault)
  | names (.error fault) => some fault
  | _ => none

variable {fault : QueueFault}

theorem fault?_done {result : Except QueueFault Unit} :
    (done result).fault? = some fault ↔ result = .error fault := by
  cases result <;> simp [fault?]

theorem fault?_messages {result : Except QueueFault (List Publish)} :
    (messages result).fault? = some fault ↔ result = .error fault := by
  cases result <;> simp [fault?]

theorem fault?_uniqueId {result : Except QueueFault (Option String)} :
    (uniqueId result).fault? = some fault ↔ result = .error fault := by
  cases result <;> simp [fault?]

theorem fault?_found {result : Except QueueFault Bool} :
    (found result).fault? = some fault ↔ result = .error fault := by
  cases result <;> simp [fault?]

theorem fault?_names {result : Except QueueFault (List String)} :
    (names result).fault? = some fault ↔ result = .error fault := by
  cases result <;> simp [fault?]

end Answer

/-- What is left of a journal and the disk once a batch was refused: by the encoding, which does
nothing to them, or by the journal. -/
inductive Journal.Refused (journal : Journal) (disk : Disk) (changes : List Change) :
    StorageFault → Journal → Disk → Prop
  | encoding {fault : Batch.Fault} (unencoded : Batch.encode changes = .error fault) :
    Refused journal disk changes (.corruption (.batch fault)) journal disk
  | append {batch : Bytes} {fault : StorageFault} {after : Journal} {left : Disk}
    (encoded : Batch.encode changes = .ok batch)
    (failed : journal.append disk batch = ⟨.error fault, after, left⟩) :
    Refused journal disk changes fault after left

namespace Journal.Refused

variable {journal after : Journal} {disk left : Disk} {changes : List Change}
variable {fault : StorageFault}

theorem eq_of_sound (refused : journal.Refused disk changes fault after left)
    (sound : journal.Sound) : after = journal ∧ left = disk := by
  cases refused with
  | encoding => exact ⟨rfl, rfl⟩
  | append _ failed =>
    have same := append_of_error_of_sound sound (congrArg Outcome.answer failed)
    exact ⟨congrArg Outcome.journal (failed.symm.trans same),
      congrArg Outcome.disk (failed.symm.trans same)⟩

/-- Nothing of the batch is left behind, just when the append does not leak. -/
theorem spared_iff (refused : journal.Refused disk changes fault after left)
    (ending : journal.AtEnd disk) :
    journal.Spared disk after left ↔
      ∀ batch, Batch.encode changes = .ok batch → ¬ journal.Leaks batch := by
  cases refused with
  | encoding unencoded =>
    refine iff_of_true (.refl journal disk) fun batch encoded => ?_
    cases unencoded.symm.trans encoded
  | @append batch _ _ _ encoded failed =>
    have spared := spared_append_iff ending (congrArg Outcome.answer failed)
    rw [failed] at spared
    rw [spared]
    constructor
    · rintro dry _ again
      cases encoded.symm.trans again
      exact dry
    · exact fun dry => dry batch encoded

end Journal.Refused

/-- A batch that is not committed leaves the bucket, but for the journal, and the budget as they
are. -/
theorem Bucket.commit_of_error {bucket : Bucket} {budget : Budget} {disk : Disk}
    {changes : List Change} {rejection : Rejection}
    (failed : (bucket.commit budget disk changes).answer = .error rejection) :
    ∃ journal left, bucket.journal.Refused disk changes rejection.fault journal left ∧
      bucket.commit budget disk changes =
        ⟨.error ⟨rejection.fault, changes.filterMap Change.inserted?⟩, { bucket with journal },
          budget, left⟩ := by
  unfold commit at failed ⊢
  split
  · rename_i idle
    rw [if_pos idle] at failed
    cases failed
  · rename_i busy
    rw [if_neg busy] at failed
    cases encoded : Batch.encode changes with
    | error fault =>
      rw [encoded] at failed
      cases failed
      exact ⟨_, _, .encoding encoded, rfl⟩
    | ok batch =>
      rw [encoded] at failed
      dsimp only at failed ⊢
      cases appended : bucket.journal.append disk batch with
      | mk answer journal left =>
        rw [appended] at failed
        cases answer with
        | error fault =>
          cases failed
          exact ⟨journal, left, .append encoded appended, rfl⟩
        | ok => cases failed

/-- On a journal in memory, nothing fails but what is refused. -/
theorem Bucket.Kept.journal_sound {bucket : Bucket} (kept : bucket.Kept) :
    bucket.journal.Sound := by
  obtain ⟨_, held, _⟩ := kept.recalled
  exact Journal.sound_of_held? held

namespace Store

variable {store after : Store} {index : Nat} {bucket : Bucket} {queue : QueueKey}
variable {fault : QueueFault} {changes : List Change}

theorem setIfInBounds_self (found : store.buckets[index]? = some bucket) :
    store.buckets.setIfInBounds index bucket = store.buckets := by
  obtain ⟨inside, rfl⟩ := Array.getElem?_eq_some_iff.mp found
  rw [Array.setIfInBounds, dif_pos inside, Array.set_getElem_self]

/-- A commit that fails settles what would have come in. Beyond that, only the journal may have
changed. -/
theorem commit_of_error (failed : store.commit index bucket changes = (.error fault, after)) :
    ∃ refusal journal left, fault = .storage refusal ∧
      bucket.journal.Refused store.disk changes refusal journal left ∧
      after = { store with
        buckets := store.buckets.setIfInBounds index { bucket with journal }
        disk := left }.releaseEntries (changes.filterMap Change.inserted?) := by
  cases answer : (bucket.commit store.budget store.disk changes).answer with
  | ok displaced =>
    simp only [commit, answer] at failed
    cases failed
  | error rejection =>
    obtain ⟨journal, left, refused, done⟩ := Bucket.commit_of_error answer
    simp only [commit, done] at failed
    cases failed
    exact ⟨_, journal, left, rfl, refused, rfl⟩

/-- Where nothing fails but the commit is refused, it does nothing else. -/
theorem commit_of_error_of_sound (found : store.buckets[index]? = some bucket)
    (sound : bucket.journal.Sound)
    (failed : store.commit index bucket changes = (.error fault, after)) :
    after = store.releaseEntries (changes.filterMap Change.inserted?) := by
  obtain ⟨refusal, journal, left, -, refused, rfl⟩ := commit_of_error failed
  obtain ⟨rfl, rfl⟩ := refused.eq_of_sound sound
  rw [setIfInBounds_self found]

/-- No journal changed, or one by a batch that it was asked to take and that was refused. -/
inductive Tried (store after : Store) : Prop
  | idle (buckets : after.buckets = store.buckets) (disk : after.disk = store.disk)
  | refused {index : Nat} {bucket : Bucket} {changes : List Change} {refusal : StorageFault}
    {journal : Journal} (found : store.buckets[index]? = some bucket)
    (buckets : after.buckets = store.buckets.setIfInBounds index { bucket with journal })
    (refused : bucket.journal.Refused store.disk changes refusal journal after.disk)

/-- Nothing changed but the numbers to draw, of which one may be gone, the payloads that were
released and, perhaps, a journal that refused a batch. -/
structure Untouched (store : Store) (released : List UInt64) (after : Store) : Prop where
  same : after = { store with
    sequence := after.sequence
    buckets := after.buckets
    disk := after.disk
    outbox.released := store.outbox.released ++ released }
  sequence : after.sequence = store.sequence ∨ after.sequence = store.sequence.advance
  journals : store.Tried after

/-- Every journal in a file stands at its end, and what its device flushes and cuts back, it
does. -/
def Ready (store : Store) : Prop :=
  ∀ ⦃index : Nat⦄ ⦃bucket : Bucket⦄, store.buckets[index]? = some bucket →
    bucket.journal.AtEnd store.disk ∧ bucket.journal.Firm

/-- All buckets are as they were, with their journals but for the devices, and so are all files. -/
structure Spares (store after : Store) : Prop where
  files : store.disk.Same after.disk
  buckets : ∀ index : Nat, ∃ device, after.buckets[index]? = store.buckets[index]?.map fun bucket =>
    { bucket with journal := bucket.journal.onDevice device }

namespace Tried

/-- Where nothing fails on the devices, the journals are the same too. -/
theorem eq_of_sound (tried : store.Tried after)
    (sound : ∀ ⦃index : Nat⦄ ⦃bucket : Bucket⦄, store.buckets[index]? = some bucket →
      bucket.journal.Sound) :
    after.buckets = store.buckets ∧ after.disk = store.disk := by
  cases tried with
  | idle buckets disk => exact ⟨buckets, disk⟩
  | refused found buckets refused =>
    obtain ⟨rfl, disk⟩ := refused.eq_of_sound (sound found)
    exact ⟨buckets.trans (setIfInBounds_self found), disk⟩

theorem spares_at (store : Store) (index : Nat) :
    ∃ device, store.buckets[index]? = store.buckets[index]?.map fun bucket =>
      { bucket with journal := bucket.journal.onDevice device } := by
  cases store.buckets[index]? with
  | none => exact ⟨.sound, rfl⟩
  | some bucket =>
    obtain ⟨device, same⟩ := bucket.journal.exists_onDevice
    refine ⟨device, ?_⟩
    rw [Option.map_some, ← same]

/-- Where flushes and cuts do not fail, the journals are the same, too, but for the devices. -/
theorem spares (tried : store.Tried after) (ready : store.Ready) : store.Spares after := by
  cases tried with
  | idle buckets disk =>
    refine ⟨disk ▸ .refl _, fun index => ?_⟩
    rw [buckets]
    exact spares_at store index
  | @refused place old _ _ journal found buckets refused =>
    obtain ⟨ending, firm⟩ := ready found
    have spared := (refused.spared_iff ending).mpr fun batch _ =>
      Journal.not_leaks_of_firm firm batch
    refine ⟨spared.files, fun index => ?_⟩
    rw [buckets]
    by_cases its : place = index
    · subst its
      obtain ⟨device, same⟩ := spared.journal
      refine ⟨device, ?_⟩
      rw [getElem?_set_self found, found, same]
      rfl
    · rw [Array.getElem?_setIfInBounds_ne its]
      exact spares_at store index

end Tried

namespace Untouched

theorem refl (store : Store) : Untouched store [] store :=
  ⟨by simp, .inl rfl, .idle rfl rfl⟩

theorem release (store : Store) (payload : UInt64) :
    Untouched store [payload] (store.release payload) :=
  ⟨rfl, .inl rfl, .idle rfl rfl⟩

variable {released : List UInt64}

theorem commit (found : store.buckets[index]? = some bucket)
    (given : (changes.filterMap Change.inserted?).filterMap Entry.payload? = released)
    (failed : store.commit index bucket changes = (.error fault, after)) :
    Untouched store released after := by
  obtain ⟨refusal, journal, left, -, refused, rfl⟩ := commit_of_error failed
  rw [← given]
  exact ⟨rfl, .inl rfl, .refused found rfl refused⟩

/-- The same for a commit that drew a number. -/
theorem commit_advance (found : store.buckets[index]? = some bucket)
    (given : (changes.filterMap Change.inserted?).filterMap Entry.payload? = released)
    (failed : { store with sequence := store.sequence.advance }.commit index bucket changes =
      (.error fault, after)) : Untouched store released after := by
  obtain ⟨refusal, journal, left, -, refused, rfl⟩ := commit_of_error failed
  rw [← given]
  exact ⟨rfl, .inr rfl, .refused found rfl refused⟩

/-- Where nothing fails on the devices, all else is the same. -/
theorem eq_of_sound (untouched : Untouched store released after)
    (sound : ∀ ⦃index : Nat⦄ ⦃bucket : Bucket⦄, store.buckets[index]? = some bucket →
      bucket.journal.Sound) :
    after = { store with
      sequence := after.sequence
      outbox.released := store.outbox.released ++ released } := by
  obtain ⟨buckets, disk⟩ := untouched.journals.eq_of_sound sound
  have same := untouched.same
  rwa [buckets, disk] at same

end Untouched

/-! Adding -/

theorem payload?_arrival (evicted : Option EntryKey) (key : EntryKey) (message : Publish) :
    ((arrival evicted key message).filterMap Change.inserted?).filterMap Entry.payload? =
      [message.payload] := by
  cases evicted <;> rfl

theorem enqueue_untouched (found : store.buckets[index]? = some bucket) (message : Publish)
    {evicted : Option EntryKey}
    (failed : (store.enqueue queue message evicted index bucket).1 = .error fault) :
    Untouched store [message.payload] (store.enqueue queue message evicted index bucket).2 := by
  have enqueues := enqueues_enqueue store queue message evicted index bucket
  generalize store.enqueue queue message evicted index bucket = served at enqueues failed ⊢
  cases enqueues with
  | fails refused => exact .commit_advance found (payload?_arrival _ _ _) refused
  | arrives => cases failed

theorem addPublish_untouched {message : Publish} {limit : Nat} {policy : DiscardPolicy}
    (failed : (store.addPublish queue message limit policy index).1 = .error fault) :
    Untouched store [message.payload] (store.addPublish queue message limit policy index).2 := by
  have adds := adds_addPublish store queue message limit policy index
  generalize store.addPublish queue message limit policy index = served at adds failed ⊢
  cases adds with
  | refused => exact .release store message.payload
  | accepted opened | evicting opened =>
    exact enqueue_untouched (getElem?_of_bucket opened) message failed
  | turnedAway => cases failed

/-- Reading brings nothing in. -/
theorem Delivers.inserted? {shared : Bool} {rest : List (EntryKey × Entry)} {delivery : Delivery}
    (delivers : Delivers shared rest delivery) :
    delivery.changes.filterMap Change.inserted? = [] := by
  induction delivers with
  | stop | panic => rfl
  | pass _ _ ih | expire _ _ _ ih | drop _ _ _ _ ih => exact ih
  | hand key _ _ id _ ih => cases shared <;> exact ih

theorem inserted?_deletes (keys : List EntryKey) :
    (keys.map Change.delete).filterMap Change.inserted? = [] := by
  induction keys with
  | nil => rfl
  | cons key keys ih => exact ih

end Store

end DeliveryQueue
