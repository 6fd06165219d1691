import DeliveryQueue.Proofs.Caches

/-!
What the buckets of a store hold, their indexes and journals aside (`Store.contents`), and what
operations do to it. A sweep of the budget takes out messages that weigh on it, one after the other
(`Store.Sweeps`); upkeep takes out what has expired and nothing else (`Store.cleanUp_cases`).
-/
namespace DeliveryQueue

namespace Store

/-- The entries of each bucket. -/
def contents (store : Store) : Array Entries := store.buckets.map Bucket.entries

/-- The entry at a key in the bucket at an index. -/
def entryAt (store : Store) (place : Nat) (key : EntryKey) : Option Entry :=
  store.contents[place]?.bind fun entries => entries.get? key

/-- Neither counters nor notices nor the numbers to draw change. -/
structure Silent (store after : Store) : Prop where
  stats : after.stats = store.stats
  notices : after.outbox.notices = store.outbox.notices
  sequence : after.sequence = store.sequence

variable {store after : Store} {index place : Nat} {bucket new : Bucket} {key : EntryKey}
variable {changes : List Change}

theorem getElem?_contents (found : store.buckets[index]? = some bucket) :
    store.contents[index]? = some bucket.entries := by
  rw [contents, Array.getElem?_map, found, Option.map_some]

theorem entryAt_of_getElem? (found : store.buckets[index]? = some bucket) (key : EntryKey) :
    store.entryAt index key = bucket.entries.get? key := by
  rw [entryAt, getElem?_contents found, Option.bind_some]

theorem entryAt_of_contents_eq (same : after.contents = store.contents) (place : Nat)
    (key : EntryKey) : after.entryAt place key = store.entryAt place key := by
  rw [entryAt, same, entryAt]

theorem contents_set (replaced : after.buckets = store.buckets.setIfInBounds index new) :
    after.contents = store.contents.setIfInBounds index new.entries := by
  rw [contents, replaced, Array.map_setIfInBounds, contents]

theorem contents_set_of_entries_eq (found : store.buckets[index]? = some bucket)
    (replaced : after.buckets = store.buckets.setIfInBounds index new)
    (same : new.entries = bucket.entries) : after.contents = store.contents := by
  rw [contents_set replaced, same]
  obtain ⟨inside, there⟩ := Array.getElem?_eq_some_iff.mp (getElem?_contents found)
  rw [Array.setIfInBounds, dif_pos inside, ← there, Array.set_getElem_self]

theorem commit_silent (store : Store) (index : Nat) (bucket : Bucket) (changes : List Change) :
    store.Silent (store.commit index bucket changes).2 := by
  unfold commit
  dsimp only
  split <;> exact ⟨rfl, rfl, rfl⟩

/-- A commit that succeeds makes the changes, and one that fails makes none. -/
theorem commit_contents (kept : store.Kept) (found : store.buckets[index]? = some bucket)
    (changes : List Change) :
    (∃ fault after, store.commit index bucket changes = (.error fault, after) ∧
        after.contents = store.contents) ∨
      ∃ after, store.commit index bucket changes = (.ok (), after) ∧
        after.contents =
          store.contents.setIfInBounds index (Change.actAll bucket.entries changes) := by
  rcases commit_cases (kept found) found changes with
    ⟨fault, failed⟩ | ⟨new, left, committed, done⟩
  · exact .inl ⟨_, _, failed, rfl⟩
  · refine .inr ⟨_, done, ?_⟩
    rw [← committed.entries]
    exact contents_set rfl

theorem contents_of_failed (kept : store.Kept) (found : store.buckets[index]? = some bucket)
    {fault : QueueFault} (failed : store.commit index bucket changes = (.error fault, after)) :
    after.contents = store.contents := by
  rcases commit_contents kept found changes with ⟨_, _, also, same⟩ | ⟨_, done, _⟩
  · cases failed.symm.trans also
    exact same
  · cases failed.symm.trans done

theorem contents_of_done (kept : store.Kept) (found : store.buckets[index]? = some bucket)
    (done : store.commit index bucket changes = (.ok (), after)) : after.contents =
      store.contents.setIfInBounds index (Change.actAll bucket.entries changes) := by
  rcases commit_contents kept found changes with ⟨_, _, failed, _⟩ | ⟨_, also, changed⟩
  · cases done.symm.trans failed
  · cases done.symm.trans also
    exact changed

theorem entryAt_set {entries : Entries} (found : store.buckets[index]? = some bucket)
    (replaced : after.contents = store.contents.setIfInBounds index entries) (place : Nat)
    (key : EntryKey) : after.entryAt place key =
      if place = index then entries.get? key else store.entryAt place key := by
  have inside := (Array.getElem?_eq_some_iff.mp (getElem?_contents found)).1
  rw [entryAt, replaced]
  split
  · rename_i same
    rw [same, Array.getElem?_setIfInBounds_self_of_lt inside, Option.bind_some]
  · rename_i differs
    rw [Array.getElem?_setIfInBounds_ne (Ne.symm differs), entryAt]

/-- Where no change falls, all stays. -/
theorem entryAt_commit_of_ne (kept : store.Kept) (found : store.buckets[index]? = some bucket)
    (apart : place = index → ∀ change ∈ changes, change.key ≠ key) :
    (store.commit index bucket changes).2.entryAt place key = store.entryAt place key := by
  rcases commit_contents kept found changes with
    ⟨fault, after, failed, same⟩ | ⟨after, done, changed⟩
  · rw [failed]
    exact entryAt_of_contents_eq same place key
  · rw [done]
    dsimp only
    rw [entryAt_set found changed]
    split
    · rename_i same
      rw [Change.get?_actAll_of_forall_ne, same, entryAt_of_getElem? found]
      intro change member equal
      exact apart same change member equal.symm
    · rfl

/-- An entry stays if changes fall on others only. -/
theorem entryAt_commit_of_spared (kept : store.Kept)
    (found : store.buckets[index]? = some bucket) {entry : Entry}
    (there : store.entryAt place key = some entry)
    (spared : ∀ change ∈ changes, bucket.entries.get? change.key ≠ some entry) :
    (store.commit index bucket changes).2.entryAt place key = some entry := by
  rw [entryAt_commit_of_ne kept found, there]
  rintro rfl change member rfl
  rw [entryAt_of_getElem? found] at there
  exact spared change member there

/-- A single change leaves an entry alone, or falls on it. -/
theorem entryAt_commit_single (kept : store.Kept) (found : store.buckets[index]? = some bucket)
    {entry : Entry} (there : store.entryAt place key = some entry) (change : Change) :
    (store.commit index bucket [change]).2.entryAt place key = some entry ∨
      (place = index ∧ key = change.key ∧ bucket.entries.get? key = some entry) ∧
        (store.commit index bucket [change]).1 = .ok () ∧
        (store.commit index bucket [change]).2.entryAt place key = change.outcome (some entry) := by
  by_cases mine : place = index ∧ key = change.key
  · obtain ⟨rfl, rfl⟩ := mine
    have stored := there
    rw [entryAt_of_getElem? found] at stored
    rcases commit_contents kept found [change] with
      ⟨fault, after, failed, same⟩ | ⟨after, done, changed⟩
    · left
      rw [failed, ← there]
      exact entryAt_of_contents_eq same place change.key
    · right
      refine ⟨⟨rfl, rfl, stored⟩, by rw [done], ?_⟩
      rw [done]
      dsimp only
      rw [entryAt_set found changed, if_pos rfl, Change.actAll_cons, Change.actAll_nil,
        Change.get?_act_self, stored]
  · left
    rw [entryAt_commit_of_ne kept found, there]
    intro same other member equal
    obtain rfl := List.mem_singleton.mp member
    exact mine ⟨same, equal.symm⟩

theorem Quiet.contents (step : Quiet 0 store after) : after.contents = store.contents := by
  cases step with
  | @edit index bucket changes found edits short =>
    have none : changes = [] := List.length_eq_zero_iff.mp (Nat.le_zero.mp short)
    subst none
    exact contents_set_of_entries_eq found rfl rfl
  | tend found tended => exact contents_set_of_entries_eq found rfl tended.entries
  | note => rfl

/-- A store that was opened holds what the old buckets held. -/
theorem Reopened.contents {settings : Settings} {disk : Disk} {olds : List Bucket}
    (h : Reopened (blank settings disk) olds after) :
    after.contents = (olds.map Bucket.entries).toArray := by
  obtain ⟨news, same, revived⟩ := h.buckets
  apply Array.toList_inj.mp
  simp only [Store.contents, Array.toList_map, same, blank, List.nil_append]
  clear same h
  induction revived with
  | nil => rfl
  | cons first _ ih => rw [List.map_cons, List.map_cons, first.entries, ih]

/-- Over a restart, a store holds what it held. -/
theorem Reopened.contents_eq {settings : Settings} {disk : Disk}
    (h : Reopened (blank settings disk) store.buckets.toList after) :
    after.contents = store.contents := by
  apply Array.toList_inj.mp
  rw [h.contents, List.toList_toArray, Store.contents, Array.toList_map]

/-! Sweeping the budget -/

theorem oldestQos0From_eq_some {base : Nat} {buckets : List Bucket}
    (oldest : oldestQos0From base buckets = some (index, key)) :
    ∃ i bucket, index = base + i ∧ buckets[i]? = some bucket ∧ bucket.oldestQos0? = some key := by
  induction buckets generalizing base with
  | nil => cases oldest
  | cons bucket buckets ih =>
    -- the oldest of the others is the oldest of one of the others
    have later (found : oldestQos0From (base + 1) buckets = some (index, key)) :
        ∃ i other, index = base + i ∧ (bucket :: buckets)[i]? = some other ∧
          other.oldestQos0? = some key := by
      obtain ⟨i, other, rfl, there, first⟩ := ih found
      exact ⟨i + 1, other, by omega, there, first⟩
    unfold oldestQos0From at oldest
    split at oldest
    · exact later oldest
    · rename_i first _
      cases oldest
      exact ⟨0, bucket, rfl, rfl, first⟩
    · rename_i first second
      split at oldest
      · cases oldest
        exact later second
      · cases oldest
        exact ⟨0, bucket, rfl, rfl, first⟩

theorem oldestQos0?_eq_some (oldest : store.oldestQos0? = some (index, key)) :
    ∃ bucket, store.buckets[index]? = some bucket ∧ bucket.oldestQos0? = some key := by
  obtain ⟨i, bucket, rfl, there, first⟩ := oldestQos0From_eq_some oldest
  exact ⟨bucket, by rwa [Nat.zero_add, ← Array.getElem?_toList], first⟩

/-- The store after a message was dropped to keep the budget; `used` is what the budget was at. -/
def dropped (store : Store) (queue : QueueKey) (message : StoredPublish) (used : UInt64) : Store :=
  { store with stats.qos0MemoryDropped := store.stats.qos0MemoryDropped + 1 }.notify
    (.qos0Memory queue.shared queue.id message.topic message.qos used store.budget.limit)

/-- A sweep of the budget: messages that weigh on it are dropped until a journal fails or there is
no need for more. -/
inductive Sweeps : Store → Store → Prop
  | done (store : Store) : Sweeps store store
  | fail {store after : Store} {index : Nat} {bucket : Bucket} {key : EntryKey} {fault : QueueFault}
      (kept : store.Kept) (found : store.buckets[index]? = some bucket)
      (weighs : bucket.Weighs key)
      (failed : store.commit index bucket [.delete key] = (.error fault, after)) :
      Sweeps store
        { after with stats.qos0EvictionFailures := after.stats.qos0EvictionFailures + 1 }
  | drop {store after last : Store} {index : Nat} {bucket : Bucket} {key : EntryKey}
      {message : StoredPublish} (kept : store.Kept) (found : store.buckets[index]? = some bucket)
      (weighs : bucket.Weighs key)
      (committed : store.commit index bucket [.delete key] = (.ok (), after))
      (rest : Sweeps (after.dropped key.queue message store.budget.used) last) : Sweeps store last

theorem sweeps_evictQos0 (kept : store.Kept) (fuel : Nat) :
    Sweeps store (store.evictQos0 fuel) := by
  induction fuel generalizing store with
  | zero => exact .done store
  | succ fuel ih =>
    unfold evictQos0
    split
    · cases oldest : store.oldestQos0? with
      | none => exact .done store
      | some first =>
        obtain ⟨index, key⟩ := first
        obtain ⟨bucket, found, least⟩ := oldestQos0?_eq_some oldest
        have weighs := (((kept found).agrees.indexed.oldest_iff key).mp least).1
        obtain ⟨entry, stored, _⟩ := id weighs
        have next := (quiet_delete found stored).kept kept
        dsimp only
        rw [found]
        dsimp only
        split
        · exact .done store
        · cases committed : store.commit index bucket [.delete key] with
          | mk answer after =>
            rw [committed] at next
            cases answer with
            | error fault => exact .fail kept found weighs committed
            | ok => exact .drop kept found weighs committed (ih next)
    · exact .done store

/-- What depends on the contents alone and outlasts the sweep holds after a message was enqueued, as
soon as it holds once the message was committed. -/
theorem enqueue_of_commit {P : Store → Prop} (kept : store.Kept)
    (found : store.buckets[index]? = some bucket) {queue : QueueKey} {message : Publish}
    {evicted : Option EntryKey}
    (stored : ∀ key ∈ evicted, ∃ entry, bucket.entries.get? key = some entry)
    (aside : ∀ {before after : Store}, after.contents = before.contents → P before → P after)
    (swept : message.qos = .atMostOnce → ∀ {before : Store} {fuel : Nat}, before.Kept →
      P before → P (before.evictQos0 fuel))
    (committed : P ({ store with sequence := store.sequence.advance }.commit index bucket
      (arrival evicted ⟨queue, store.sequence.next⟩ message)).2) :
    P (store.enqueue queue message evicted index bucket).2 := by
  have step : Step 1 store _ _ := .enqueue found queue message stored
  have keeps := step.kept kept
  have enqueues := enqueues_enqueue store queue message evicted index bucket
  generalize store.enqueue queue message evicted index bucket = served at enqueues ⊢
  cases enqueues with
  | fails failed =>
    rw [failed] at committed
    exact committed
  | @arrives after last done room =>
    rw [done] at keeps committed
    have yields : last.Kept ∧ P last := by
      rw [room]
      cases evicted.bind fun old => (bucket.entries.get? old).bind Entry.message? with
      | none => exact ⟨keeps, committed⟩
      | some old =>
        have same : (after.yielded queue (some old)).contents = after.contents := rfl
        exact ⟨keeps, aside same committed⟩
    dsimp only
    split
    · rename_i unacknowledged
      exact swept unacknowledged yields.1 yields.2
    · exact yields.2

/-! Upkeep -/

theorem entries_flushAll (retries : Nat) (disk : Disk) (buckets : List Bucket) :
    (flushAll retries disk buckets).2.1.map Bucket.entries = buckets.map Bucket.entries := by
  rw [flushAll_eq, List.map_map]
  exact List.map_congr_left fun bucket _ =>
    (tended_flush bucket disk retries : bucket.Tended 0 _).entries

/-- Closing changes no entry, and neither counts nor reports anything. -/
theorem close_silent (store : Store) :
    store.close.2.contents = store.contents ∧ store.Silent store.close.2 := by
  have closes := closes_close store
  generalize store.close = served at closes ⊢
  cases closes with
  | again => exact ⟨rfl, rfl, rfl, rfl⟩
  | flushes =>
    refine ⟨?_, rfl, rfl, rfl⟩
    apply Array.toList_inj.mp
    simp only [contents, Array.toList_map]
    exact entries_flushAll _ _ _

/-- Cleaning up does nothing, or commits that what is stale goes away. If that succeeds, it counts
what went, whether compaction succeeds or not. -/
theorem cleanUp_cases (store : Store) (now : UInt64) (index : Nat) :
    (store.cleanUp now index).2 = store ∨
      ∃ bucket, store.buckets[index]? = some bucket ∧
        ((∃ fault after, store.commit index bucket ((staleKeys bucket now).map .delete) =
            (.error fault, after) ∧ (store.cleanUp now index).2 = after) ∨
          ∃ swept, store.commit index bucket ((staleKeys bucket now).map .delete) =
              (.ok (), swept) ∧
            (store.cleanUp now index).2.contents = swept.contents ∧
            (store.cleanUp now index).2.outbox = swept.outbox ∧
            (store.cleanUp now index).2.stats = { swept.stats with
              expired := swept.stats.expired + .ofNat (staleKeys bucket now).length }) := by
  have cleans := cleansUp_cleanUp store now index
  generalize store.cleanUp now index = served at cleans ⊢
  cases cleans with
  | refused => exact .inl rfl
  | @fails bucket fault after opened failed =>
    exact .inr ⟨bucket, getElem?_of_bucket opened, .inl ⟨fault, after, failed, rfl⟩⟩
  | @sweeps bucket swept left opened done there =>
    have same : (swept.cleaned index left (staleKeys bucket now).length).contents =
        swept.contents := contents_set_of_entries_eq there rfl rfl
    exact .inr ⟨bucket, getElem?_of_bucket opened, .inr ⟨swept, done, same, rfl, rfl⟩⟩
  | @compacts bucket swept left opened done there =>
    have written : left.forgetEmptyQueues.Tended left.entryCount
        (left.forgetEmptyQueues.compact swept.disk).2.1 := .compact swept.disk (Nat.le_refl _)
    refine .inr ⟨bucket, getElem?_of_bucket opened, .inr ⟨swept, done, ?_, rfl, rfl⟩⟩
    exact contents_set_of_entries_eq there (Array.setIfInBounds_setIfInBounds _) written.entries

end Store

end DeliveryQueue
