import DeliveryQueue.Proofs.Handing
import DeliveryQueue.Proofs.Restart
import DeliveryQueue.Proofs.Sweeping

/-!
What cleaning up a bucket comes to (`World.cleanUp_drops_stale`). The waiting messages that have
expired go and nothing else does, what is counted and answered is what has entries, and the journal
brings back just what is left, also if it was compacted. It does because every journal can be read
as long as buckets hold fewer than 2^32 entries (`Store.Legible`).
-/
namespace DeliveryQueue

theorem Entry.of_isStale {entry : Entry} {now : UInt64} (stale : entry.isStale now = true) :
    ∃ stored : StoredPublish, entry = .publish stored ∧ stored.packetId = none ∧
      stored.isExpired now = true := by
  cases entry with
  | publish stored =>
    obtain ⟨waits, late⟩ := Bool.and_eq_true_iff.mp stale
    exact ⟨stored, rfl, Option.isNone_iff_eq_none.mp waits, late⟩
  | pubrel | taken => cases stale

/-! Journals that can be read -/

namespace Store

/-- Every journal of the store can be read. -/
def Legible (store : Store) : Prop :=
  ∀ ⦃index : Nat⦄ ⦃bucket : Bucket⦄, store.buckets[index]? = some bucket →
    ∃ changes, bucket.logged? = some changes

variable {store after : Store} {index few : Nat} {bucket : Bucket} {offer : Option Offer}

theorem Legible.commit (legible : store.Legible) (kept : store.Kept)
    (found : store.buckets[index]? = some bucket) {changes : List Change}
    (lawful : Change.LawfulAlong bucket.entries changes) (short : changes.length < UInt32.size) :
    (store.commit index bucket changes).2.Legible := by
  rcases commit_cases (kept found) found changes with
    ⟨fault, failed⟩ | ⟨new, left, committed, done⟩
  · rw [failed]
    exact legible
  · rw [done]
    obtain ⟨front, read⟩ := legible found
    exact forall_set legible ⟨_, committed.readable lawful read short⟩

theorem Quiet.legible (step : Quiet few store after) (kept : store.Kept)
    (small : few < UInt32.size) (legible : store.Legible) : after.Legible := by
  cases step with
  | edit found edits short =>
    exact legible.commit kept found (edits.lawful (kept found).sound)
      (Nat.lt_of_le_of_lt short small)
  | tend found tended =>
    obtain ⟨changes, read⟩ := legible found
    exact forall_set legible (tended.load_le (kept found) small read).1
  | note => exact legible

theorem Quietly.legible (steps : Quietly few store after) (kept : store.Kept)
    (small : few < UInt32.size) (legible : store.Legible) : after.Legible := by
  induction steps with
  | refl => exact legible
  | next step _ ih => exact ih (step.kept kept) (step.legible kept small legible)

theorem Step.legible (step : Step few store offer after) (kept : store.Kept)
    (small : few < UInt32.size) (legible : store.Legible) : after.Legible := by
  have advanced : { store with sequence := store.sequence.advance }.Legible := legible
  cases step with
  | @enqueue index bucket found queue message evicted stored =>
    refine advanced.commit kept.advance found
      (lawfulAlong_arrival (kept found).sound stored _ message) ?_
    cases evicted <;> simp [arrival, UInt32.size]
  | @enqueuePubrel index bucket found queue id free =>
    exact advanced.commit kept.advance found (lawfulAlong_pubrel (kept found).sound free)
      (by simp [UInt32.size])
  | refuse | stay => exact legible
  | quiet step => exact step.legible kept small legible

theorem Took.legible (took : Took store offer after) (kept : store.Kept) (small : store.Small)
    (legible : store.Legible) : after.Legible := by
  obtain ⟨few, middle, spans, step, rest⟩ := took
  have short : few < UInt32.size := by
    rcases spans with one | ⟨index, bucket, found, few⟩
    · exact Nat.lt_of_le_of_lt one (by decide)
    · exact Nat.lt_of_le_of_lt few (small bucket (mem_toList found))
  exact rest.legible (step.kept kept) short (step.legible kept short legible)

/-- What was rebuilt from a journal can be rebuilt again. -/
theorem Reopened.legible {settings : Settings} {disk : Disk} {olds : List Bucket}
    (h : Reopened (blank settings disk) olds after) : after.Legible := by
  intro index bucket found
  rcases h.getElem?_blank index with ⟨_, nothing⟩ | ⟨old, new, _, there, revived⟩
  · cases nothing.symm.trans found
  · cases there.symm.trans found
    obtain ⟨changes, read⟩ := revived.readable
    exact ⟨changes, by rw [Bucket.logged?, revived.journal]; exact read⟩

end Store

namespace World

/-- Every journal can be read in every run whose buckets stay small. -/
theorem run_legible {settings : Settings} {disk : Disk} {store : Store}
    (opened : Store.inMemory settings disk = .ok store) (payloads : Payloads) (events : List Event)
    (small : ∀ front, front <+: events → ((start store payloads).run front).store.Small) :
    ((start store payloads).run events).store.Legible := by
  induction events using List.reverseRecOn with
  | nil =>
    obtain ⟨used, reopened⟩ := Store.reopened_of_inMemory opened
    exact reopened.legible
  | append_singleton events event ih =>
    have kept := (run_orderly opened payloads events).kept
    have legible := ih fun front first => small front (first.trans (List.prefix_append _ _))
    have room := small events (List.prefix_append _ _)
    rw [run_concat]
    have moves := moves_step kept event
    generalize ((start store payloads).run events).step event = after at moves
    cases moves with
    | ask request => exact (Store.serve_took kept request).legible kept room legible
    | call => exact legible
    | still _ quiet _ => exact quiet.legible kept (by decide) legible
    | reopen reopened => exact reopened.legible

end World

/-! The bucket that is left -/

theorem Journal.ofJournal_replaceAll {journal : Journal} {disk : Disk} {batches : List Bytes}
    {snapshot : Bytes} {fault : StorageFault} (held : journal.held? = some batches)
    (failed : (journal.replaceAll disk snapshot).answer = .error fault) :
    fault.ofJournal = true := by
  cases journal with
  | file log => cases held
  | memory log =>
    rw [replaceAll] at failed
    split at failed <;> cases failed
    rfl

theorem Journal.recordCount_of_held? {journal : Journal} {batches : List Bytes}
    (held : journal.held? = some batches) : journal.recordCount = batches.length := by
  cases journal <;> cases held
  rfl

namespace Bucket

variable {bucket left : Bucket} {changes : List Change} {fault : StorageFault} {now : UInt64}

/-- Changes that can be encoded are refused by the journal alone. -/
theorem ofJournal_of_refusal? (short : Batch.Fits (changes.flatMap Batch.changeTexts))
    (refused : bucket.refusal? changes = some fault) : fault.ofJournal = true := by
  unfold refusal? at refused
  rw [Batch.encode_eq_ok_iff.mpr ⟨short, rfl⟩] at refused
  split at refused
  · cases refused
  · dsimp only at refused
    split at refused <;> cases refused
    rename_i failed
    exact Journal.ofJournal_append failed

/-- What is rebuilt from the journal of a bucket is like the bucket. -/
theorem Kept.rebuilt (kept : bucket.Kept) (legible : ∃ changes, bucket.logged? = some changes)
    (place : Nat) (budget : Budget) (disk : Disk) :
    ∃ top, ((ofJournal place bucket.journal).recover budget disk).answer = .ok top ∧
      bucket.Alike ((ofJournal place bucket.journal).recover budget disk).bucket := by
  obtain ⟨changes, read⟩ := legible
  obtain ⟨batches, held, -⟩ := kept.recalled
  have same : (ofJournal place bucket.journal).journal.held? = some batches := held
  have again : Batch.changes? batches = some changes := by
    rw [logged?, held] at read
    exact read
  have revives := kept.revives read place budget
  rw [recover_of_changes? same again]
  exact ⟨_, rfl, kept.agrees.alike revives.kept.agrees revives.entries⟩

/-- A queue is counted after the empty ones were forgotten if and only if it has entries. -/
theorem Indexed.mem_queueKeys_iff (indexed : bucket.Indexed) (queue : QueueKey) :
    queue ∈ bucket.forgetEmptyQueues.queueKeys ↔ bucket.queueEntries queue ≠ [] := by
  rw [Ne, ← indexed.forgotten queue, counts?]
  constructor
  · intro member
    obtain ⟨⟨_, counts⟩, counted, rfl⟩ := List.mem_map.mp member
    rw [Table.mem_bindings_iff.mp counted]
    exact Option.some_ne_none counts
  · intro counted
    obtain ⟨counts, counted⟩ := Option.ne_none_iff_exists'.mp counted
    exact List.mem_map.mpr ⟨(queue, counts), Table.mem_bindings_iff.mpr counted, rfl⟩

/-- The log of a bucket once its stale entries were deleted. -/
def sweptLog (bucket : Bucket) (now : UInt64) (batches : List Bytes) : List Bytes :=
  batches ++ if Store.staleEntries bucket now = [] then []
    else [Batch.bytes ((Store.staleEntries bucket now).map fun e => .delete e.1)]

/-- A bucket without its stale entries is as sound as before. -/
structure Sheds (bucket : Bucket) (now : UInt64) (batches : List Bytes) (left : Bucket) : Prop where
  kept : left.Kept
  entries : left.entries = bucket.entries.filter fun _ entry => !entry.isStale now
  held : left.journal.held? = some (bucket.sweptLog now batches)
  legible : bucket.entryCount < UInt32.size → (∃ changes, bucket.logged? = some changes) →
    ∃ changes, left.logged? = some changes

variable {batches : List Bytes}

theorem sheds_shed (its : bucket.Kept)
    (taken : bucket.refusal? ((Store.staleKeys bucket now).map .delete) = none)
    (held : bucket.journal.held? = some batches) :
    bucket.Sheds now batches (bucket.shed now) := by
  have done := Store.commit_stale its taken ⟨0, 0⟩ .empty
  have lawful := (Store.editsAlong_staleKeys bucket now).lawful its.sound
  have longer := held?_of_commit held (congrArg Outcome.answer done)
  rcases commit_cases held ⟨0, 0⟩ .empty ((Store.staleKeys bucket now).map .delete) with
    ⟨fault, failed⟩ | ⟨left, budget, committed, also⟩
  · cases failed.symm.trans done
  obtain rfl : bucket.shed now = left := congrArg Outcome.bucket (done.symm.trans also)
  refine ⟨its.committed lawful committed, ?_, ?_, ?_⟩
  · exact committed.entries.trans (Store.actAll_staleKeys its.agrees.indexed now)
  · rw [done] at longer
    simpa only [sweptLog, Store.deletes_staleKeys, List.map_eq_nil_iff] using longer
  · rintro small ⟨front, read⟩
    have few : ((Store.staleKeys bucket now).map Change.delete).length < UInt32.size := by
      rw [List.length_map]
      exact Nat.lt_of_le_of_lt (Store.length_staleKeys_le bucket now) small
    exact ⟨_, committed.readable lawful read few⟩

/-- What a sweep leaves if no journal fails: the bucket without its stale entries and its empty
queues, over the longer log or, beyond the threshold, over a snapshot. -/
structure Leaves (bucket : Bucket) (threshold : Nat) (now : UInt64) (batches : List Bytes)
    (left : Bucket) : Prop where
  kept : left.Kept
  entries : left.entries = bucket.entries.filter fun _ entry => !entry.isStale now
  counted : ∀ queue, queue ∈ left.queueKeys ↔ left.queueEntries queue ≠ []
  held : left.journal.held? = some (
    if threshold < (bucket.sweptLog now batches).length then
      [Batch.bytes (snapshot left.entries)]
    else bucket.sweptLog now batches)
  legible : bucket.entryCount < UInt32.size → (∃ changes, bucket.logged? = some changes) →
    ∃ changes, left.logged? = some changes

/-- A sweep fails over its journal, or it leaves what it should. -/
theorem sweep_cases (its : bucket.Kept) (writable : bucket.entries.Writable)
    (held : bucket.journal.held? = some batches) (threshold : Nat) (now : UInt64) :
    (∃ fault : StorageFault, fault.ofJournal = true ∧
        (bucket.sweep threshold now).answer = .error (.storage fault)) ∨
      ∃ left, bucket.sweep threshold now =
          ⟨.ok (Store.sharedIds left), left, Store.staleEntries bucket now⟩ ∧
        bucket.Leaves threshold now batches left := by
  unfold sweep
  cases refused : bucket.refusal? ((Store.staleKeys bucket now).map .delete) with
  | some fault =>
    refine .inl ⟨fault, ofJournal_of_refusal? (writable.fits_changes ?_ ?_) refused, rfl⟩
    · exact (Store.editsAlong_staleKeys bucket now).inserted?
    · exact (Store.editsAlong_staleKeys bucket now).stored
  | none =>
    have sheds := sheds_shed its refused held
    have kept := sheds.kept.forgetEmptyQueues
    have longer : (bucket.shed now).forgetEmptyQueues.journal.held? = some _ := sheds.held
    have counted := sheds.kept.agrees.indexed.mem_queueKeys_iff
    dsimp only
    rw [journalRecords, Journal.recordCount_of_held? longer]
    split
    · rename_i long
      rcases compact_cases longer .empty with ⟨fault, failed⟩ | ⟨journal, -, shorter, done⟩
      · have fit : (bucket.shed now).forgetEmptyQueues.entries.Writable := by
          intro key entry stored
          have stored : (bucket.shed now).entries.get? key = some entry := stored
          rw [sheds.entries, Table.get?_filter] at stored
          exact writable (Option.filter_eq_some_iff.mp stored).1
        have cause := congrArg Prod.fst ((compact_of_writable fit .empty).symm.trans failed)
        rw [failed]
        exact .inl ⟨fault, Journal.ofJournal_replaceAll longer cause, rfl⟩
      · have still := kept.compact .empty
        have few : (bucket.shed now).forgetEmptyQueues.entryCount ≤ bucket.entryCount := by
          change (bucket.shed now).entries.bindings.length ≤ _
          rw [sheds.entries]
          exact List.length_filter_le _ _
        have tended : (bucket.shed now).forgetEmptyQueues.Tended bucket.entryCount _ :=
          .compact .empty few
        rw [done] at tended still ⊢
        refine .inr ⟨_, rfl, still, sheds.entries, counted, ?_, fun small legible => ?_⟩
        · rw [if_pos long]
          exact shorter
        · obtain ⟨all, read⟩ := sheds.legible small legible
          exact (tended.load_le kept small read).1
    · rename_i short
      refine .inr ⟨_, rfl, kept, sheds.entries, counted, ?_, sheds.legible⟩
      rw [if_neg short]
      exact longer

end Bucket

/-! Cleaning up -/

namespace Store

variable {store : Store} {index : Nat} {bucket : Bucket} {now : UInt64}

theorem mem_sharedIds {id : String} :
    id ∈ sharedIds bucket ↔ (⟨id, true⟩ : QueueKey) ∈ bucket.queueKeys := by
  constructor
  · intro member
    obtain ⟨⟨_, shared⟩, counted, rfl⟩ := List.mem_map.mp member
    obtain ⟨counted, here⟩ := List.mem_filter.mp counted
    obtain rfl : shared = true := here
    exact counted
  · intro counted
    exact List.mem_map.mpr ⟨⟨id, true⟩, List.mem_filter.mpr ⟨counted, rfl⟩, rfl⟩

theorem nodup_sharedIds (bucket : Bucket) : (sharedIds bucket).Nodup := by
  refine (bucket.queues.nodup_keys.filter _).map_on ?_
  rintro ⟨id, first⟩ here ⟨other, second⟩ there same
  obtain rfl : first = true := (List.mem_filter.mp here).2
  obtain rfl : second = true := (List.mem_filter.mp there).2
  obtain rfl : id = other := same
  rfl

/-- What is answered and what is left when a bucket was cleaned up. -/
structure CleanedUp (store : Store) (now : UInt64) (index : Nat) (bucket left : Bucket)
    (gone : Line) (names : List String) (after : Store) : Prop where
  expired : gone.Perm (bucket.entries.bindings.filter fun e => e.2.isStale now)
  waited : ∀ e ∈ gone, ∃ stored : StoredPublish, e.2 = .publish stored ∧
    stored.packetId = none ∧ stored.isExpired now = true
  entries : left.entries = bucket.entries.filter fun _ entry => !entry.isStale now
  state : after = { store with
    buckets := store.buckets.setIfInBounds index left
    budget := store.budget.drain (Line.weight gone)
    stats.expired := store.stats.expired + .ofNat gone.length
    outbox.released := store.outbox.released ++ gone.filterMap fun e => e.2.payload?
    outbox.committed := store.outbox.committed ++ gone.map fun e => .delete e.1 }
  single : names.Nodup
  named : ∀ id, id ∈ names ↔ left.queueEntries ⟨id, true⟩ ≠ []
  counted : ∀ queue, queue ∈ left.queueKeys ↔ left.queueEntries queue ≠ []
  inFlight : ∀ queue id key, left.inFlightKey? queue id = some key ↔
    key.queue = queue ∧ ∃ entry, left.entries.get? key = some entry ∧ entry.packetId? = some id
  journaled : ∃ batches, bucket.journal.held? = some batches ∧
    let longer := batches ++
      if gone = [] then [] else [Batch.bytes (gone.map fun e => .delete e.1)]
    left.journal.held? = some (
      if store.settings.compactionThreshold < longer.length then
        [Batch.bytes (snapshot left.entries)]
      else longer)
  /-- A bucket that is rebuilt from the journal holds and answers the same. -/
  replays : ∀ place budget disk,
    ∃ top, ((Bucket.ofJournal place left.journal).recover budget disk).answer = .ok top ∧
      left.Alike ((Bucket.ofJournal place left.journal).recover budget disk).bucket

end Store

namespace World

/-- If no journal fails, cleaning up a bucket drops what waits and has expired, and answers, counts
and journals just what is left. -/
theorem cleanUp_drops_stale {settings : Settings} {disk : Disk} {store : Store}
    (opened : Store.inMemory settings disk = .ok store) (payloads : Payloads) (events : List Event)
    (small : ∀ front, front <+: events → ((start store payloads).run front).store.Small)
    {index : Nat} {bucket : Bucket}
    (found : ((start store payloads).run events).store.bucket index = .ok bucket) (now : UInt64)
    (calm : (((start store payloads).run events).store.serve
      (.cleanUp now index)).1.journalFailed = false) :
    let before := ((start store payloads).run events).store
    ∃ names left gone after, before.cleanUp now index = (.ok names, after) ∧
      before.CleanedUp now index bucket left gone names after := by
  intro before
  have kept := (run_orderly opened payloads events).kept
  have there := Store.getElem?_of_bucket found
  have its := kept there
  have few := small events (List.prefix_refl events) bucket (Store.mem_toList there)
  have writable := (run_writable opened payloads events).bucket there
  obtain ⟨batches, held, -⟩ := its.recalled
  have swept := Store.cleanUp_eq_sweep kept found now
  rcases Bucket.sweep_cases its writable held before.settings.compactionThreshold now with
    ⟨fault, cause, failed⟩ | ⟨left, done, leaves⟩
  · rw [failed] at swept
    simp [Store.serve, swept, Answer.journalFailed, Answer.fault?, cause] at calm
  · rw [done] at swept
    exact ⟨_, left, _, _, swept, {
      expired := Store.perm_staleEntries its.agrees.indexed now
      waited := fun e stale => Entry.of_isStale
        ((Store.mem_staleEntries its.agrees.indexed).mp stale).2
      entries := leaves.entries
      state := rfl
      single := Store.nodup_sharedIds left
      named := fun id => Store.mem_sharedIds.trans (leaves.counted _)
      counted := leaves.counted
      inFlight := fun _ _ _ => leaves.kept.agrees.inFlightKey?_eq_some_iff
      journaled := ⟨batches, held, leaves.held⟩
      replays := leaves.kept.rebuilt
        (leaves.legible few (run_legible opened payloads events small there)) }⟩

/-- Four messages with an expiry of a second: one is in flight and one of QoS 0 waits in the queue
of a client, and one waits in each of two shared queues, before another that does not expire in the
first of them. -/
def aging : List Event :=
  let mortal (queue : QueueKey) (qos : Qos) (payload : UInt64) := Event.ask <| .add queue
    (.publish { Publish.ofQos qos "u" payload with expiry := some 1 }) 10 .discard 0
  [mortal .client .atLeastOnce 1, .ask (.readNew .client [7] 1000 0 0),
    mortal .client .atMostOnce 2, mortal ⟨"g", true⟩ .exactlyOnce 3,
    .ask (.add ⟨"g", true⟩ (.publish (.ofQos .atLeastOnce "u" 4)) 10 .discard 0),
    mortal ⟨"h", true⟩ .atLeastOnce 5]

theorem cleanUp_drops_stale_aging :
    let before := ((start .single .empty).run aging).store
    ∃ bucket names left gone after, before.cleanUp 1000 0 = (.ok names, after) ∧
      before.CleanedUp 1000 0 bucket left gone names after ∧ names = ["g"] ∧
      after.outbox.released = [2, 3, 5] ∧ after.stats.expired = 3 ∧
      after.buckets.toList.map Bucket.journalRecords = [1] := by
  intro before
  have small : ∀ front ∈ aging.inits, ((start .single .empty).run front).store.Small := by
    decide +kernel
  have fine : (before.bucket 0).toOption.any (fun _ => true) = true := by decide +kernel
  obtain ⟨bucket, found, -⟩ := Store.exists_bucket fine
  obtain ⟨names, left, gone, after, done, cleaned⟩ := cleanUp_drops_stale Store.inMemory_single
    .empty aging (fun front first => small front ((List.mem_inits front aging).mpr first)) found
    1000 (by decide +kernel)
  have answered : (before.cleanUp 1000 0).1.toOption = some ["g"] := by decide +kernel
  have settled : (before.cleanUp 1000 0).2.outbox.released = [2, 3, 5] ∧
      (before.cleanUp 1000 0).2.stats.expired = 3 ∧
      (before.cleanUp 1000 0).2.buckets.toList.map Bucket.journalRecords = [1] := by
    decide +kernel
  have done : before.cleanUp 1000 0 = (.ok names, after) := done
  rw [done] at answered settled
  exact ⟨bucket, names, left, gone, after, done, cleaned, Option.some.inj answered, settled⟩

end World

end DeliveryQueue
