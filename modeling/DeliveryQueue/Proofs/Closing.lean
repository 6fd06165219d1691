import DeliveryQueue.Proofs.InFlight
import DeliveryQueue.Proofs.Serving

/-!
What it means that a store closed well. The first close goes to every journal and tells it to flush
until it does or no attempt is left (`Journal.Flushed`); it answers well exactly if each of them did
(`Store.flushes_close_iff`), and after it nothing is written any more. Any later close answers well
too, so that it tells nothing: the journals are settled if no close before it failed, and only then
(`World.close_settles_iff`).
-/
namespace DeliveryQueue

theorem Answer.fault?_done_eq_none {result : Except QueueFault Unit} :
    (Answer.done result).fault? = none ↔ result = .ok () := by
  cases result <;> simp [fault?]

/-! Flushing -/

namespace Journal

/-- The journal was told to flush until it did, and so many times more than once at most. -/
inductive Flushed (disk : Disk) : Nat → Journal → Journal → Prop
  | done {retries : Nat} {journal : Journal} (fine : (journal.sync disk).answer = .ok ()) :
      Flushed disk retries journal (journal.sync disk).journal
  | again {retries : Nat} {journal after : Journal} {fault : StorageFault}
      (failed : (journal.sync disk).answer = .error fault)
      (later : Flushed disk retries (journal.sync disk).journal after) :
      Flushed disk (retries + 1) journal after

/-- The journal as it was written, whatever it was told and however often it was flushed. -/
def plain : Journal → Journal
  | memory log => memory { MemoryJournal.empty with batches := log.batches }
  | file log => file log

@[simp] theorem plain_told (mood : Mood) (journal : Journal) :
    (journal.told mood).plain = journal.plain := by
  cases journal <;> rfl

end Journal

namespace Store

variable {store : Store} {index : Nat} {bucket : Bucket} {queue : QueueKey}

/-- A bucket is flushed well exactly if its journal flushes in time. -/
theorem flushed_iff (bucket : Bucket) (disk : Disk) (retries : Nat) (journal : Journal) :
    bucket.journal.Flushed disk retries journal ↔
      (flush bucket disk retries).1 = .ok () ∧
        (flush bucket disk retries).2.1.journal = journal := by
  induction retries generalizing bucket with
  | zero =>
    rw [flush, sync_eq]
    constructor
    · rintro ⟨fine⟩
      exact ⟨fine, rfl⟩
    · rintro ⟨fine, rfl⟩
      exact .done fine
  | succ retries ih =>
    rw [flush, sync_eq]
    cases answer : (bucket.journal.sync disk).answer with
    | ok =>
      constructor
      · intro flushed
        cases flushed with
        | done => exact ⟨rfl, rfl⟩
        | again failed => cases failed.symm.trans answer
      · rintro ⟨-, rfl⟩
        exact .done answer
    | error fault =>
      dsimp only
      rw [← ih { bucket with journal := (bucket.journal.sync disk).journal }]
      constructor
      · intro flushed
        cases flushed with
        | done fine => cases fine.symm.trans answer
        | again _ later => exact later
      · exact .again answer

/-- Whatever failed last is answered, so all went well exactly if each bucket did. -/
theorem flushAll_eq_ok_iff (retries : Nat) (disk : Disk) (buckets : List Bucket) :
    (flushAll retries disk buckets).1 = .ok () ↔
      ∀ bucket ∈ buckets, (flush bucket disk retries).1 = .ok () := by
  induction buckets with
  | nil => simp [flushAll]
  | cons bucket buckets ih =>
    simp only [flushAll, disk_flush, List.forall_mem_cons, ← ih]
    cases (flushAll retries disk buckets).1 with
    | ok => simp
    | error => simp

/-- The store was open, and what was done to it flushed every journal. -/
structure Flushes (store after : Store) : Prop where
  running : store.closed = false
  flushed : ∀ ⦃index : Nat⦄ ⦃bucket : Bucket⦄, store.buckets[index]? = some bucket →
    ∃ left, after.buckets[index]? = some left ∧
      bucket.journal.Flushed store.disk store.settings.closeRetries left.journal

/-- A close flushes every journal exactly if it is the first and answers well. -/
theorem flushes_close_iff (store : Store) :
    store.Flushes store.close.2 ↔ store.closed = false ∧ store.close.1 = .ok () := by
  have well (bucket : Bucket) := flushed_iff bucket store.disk store.settings.closeRetries
  have closes := closes_close store
  generalize store.close = served at closes ⊢
  cases closes with
  | again closed =>
    constructor
    · intro flushes
      cases flushes.running.symm.trans closed
    · rintro ⟨running, -⟩
      cases running.symm.trans closed
  | flushes running =>
    have answers (result : Except StorageFault Unit) :
        result.mapError QueueFault.storage = .ok () ↔ result = .ok () := by
      cases result <;> simp [Except.mapError]
    rw [answers, flushAll_eq_ok_iff]
    let tries := store.settings.closeRetries
    have there {index : Nat} {bucket : Bucket} (found : store.buckets[index]? = some bucket) :
        (flushAll tries store.disk store.buckets.toList).2.1.toArray[index]? =
          some (flush bucket store.disk tries).2.1 := by
      rw [flushAll_eq]
      simp [found]
    constructor
    · intro flushes
      refine ⟨running, forall_toList fun index bucket found => ?_⟩
      obtain ⟨left, same, flushed⟩ := flushes.flushed found
      exact ((well bucket _).mp flushed).1
    · rintro ⟨-, fine⟩
      exact ⟨running, fun index bucket found =>
        ⟨_, there found, (well bucket _).mpr ⟨fine bucket (mem_toList found), rfl⟩⟩⟩

theorem closed_ofJournals {settings : Settings} {journals : List Journal} {disk : Disk}
    (opened : ofJournals settings journals disk = .ok store) : store.closed = false := by
  refine of_ofJournals (P := fun store => store.closed = false) opened (fun used => rfl) ?_
  intro journal member before after open_ added
  unfold addBucket at added
  dsimp only at added
  split at added
  · cases added
  · cases added
    exact open_

theorem closed_close (store : Store) : store.close.2.closed = true := by
  have closes := closes_close store
  generalize store.close = served at closes ⊢
  cases closes with
  | again closed => exact closed
  | flushes => rfl

/-! Only closing closes -/

theorem closed_commit (store : Store) (index : Nat) (bucket : Bucket) (changes : List Change) :
    (store.commit index bucket changes).2.closed = store.closed := by
  unfold commit
  dsimp only
  split <;> rfl

theorem closed_of_commit {after : Store} {changes : List Change} {answer : Except QueueFault Unit}
    (committed : store.commit index bucket changes = (answer, after)) :
    after.closed = store.closed := by
  rw [← closed_commit store index bucket changes, committed]

theorem closed_evictQos0 (fuel : Nat) (store : Store) :
    (evictQos0 fuel store).closed = store.closed := by
  induction fuel generalizing store with
  | zero => rfl
  | succ fuel ih =>
    unfold evictQos0
    split
    · split
      · rfl
      · split
        · rfl
        · split
          · rfl
          · dsimp only
            split
            · rename_i failed
              have kept := closed_of_commit failed
              exact kept
            · rename_i done
              have kept := closed_of_commit done
              rw [ih]
              exact kept
    · rfl

theorem closed_enqueue (store : Store) (queue : QueueKey) (message : Publish)
    (evicted : Option EntryKey) (index : Nat) (bucket : Bucket) :
    (store.enqueue queue message evicted index bucket).2.closed = store.closed := by
  have enqueues := enqueues_enqueue store queue message evicted index bucket
  generalize store.enqueue queue message evicted index bucket = served at enqueues ⊢
  cases enqueues with
  | fails failed =>
    have kept := closed_of_commit failed
    exact kept
  | @arrives after last done room =>
    have before := closed_of_commit done
    have kept : last.closed = store.closed := by
      rw [room]
      cases evicted.bind fun old => (bucket.entries.get? old).bind Entry.message? with
      | none | some => exact before
    dsimp only
    split
    · exact (closed_evictQos0 _ _).trans kept
    · exact kept

theorem closed_addPublish (store : Store) (queue : QueueKey) (message : Publish) (limit : Nat)
    (policy : DiscardPolicy) (index : Nat) :
    (store.addPublish queue message limit policy index).2.closed = store.closed := by
  have adds := adds_addPublish store queue message limit policy index
  generalize store.addPublish queue message limit policy index = served at adds ⊢
  cases adds with
  | refused | turnedAway => rfl
  | accepted | evicting => exact closed_enqueue ..

theorem closed_addPubrel (store : Store) (queue : QueueKey) (id : UInt16) (index : Nat) :
    (store.addPubrel queue id index).2.closed = store.closed := by
  have adds := adds_addPubrel store queue id index
  generalize store.addPubrel queue id index = served at adds ⊢
  cases adds with
  | refused | known => rfl
  | fresh => exact closed_commit ..

theorem closed_readNew (store : Store) (queue : QueueKey) (pool : List UInt16)
    (byteLimit now : UInt64) (index : Nat) :
    (store.readNew queue pool byteLimit now index).2.closed = store.closed := by
  have reads := reads_readNew store queue pool byteLimit now index
  generalize store.readNew queue pool byteLimit now index = served at reads ⊢
  cases reads with
  | refused | unknown | panics => rfl
  | fails _ _ _ failed => exact closed_of_commit failed
  | hands _ _ _ done =>
    have kept := closed_of_commit done
    exact kept

theorem closed_replace (store : Store) (id : String) (packetId : UInt16) (index : Nat) :
    (store.replace id packetId index).2.closed = store.closed := by
  have replaces := replaces_replace store id packetId index
  generalize store.replace id packetId index = served at replaces ⊢
  cases replaces with
  | refused | known => rfl
  | fresh | releases => exact closed_commit ..

theorem closed_remove (store : Store) (id : String) (packetId : UInt16)
    (expected : Option String) (index : Nat) :
    (store.remove id packetId expected index).2.closed = store.closed := by
  have removes := removes_remove store id packetId expected index
  generalize store.remove id packetId expected index = served at removes ⊢
  cases removes with
  | refused | unknown | unexpected => rfl
  | removes => exact closed_commit ..

theorem closed_changeFirst (store : Store) (queue : QueueKey) (fits : Entry → Bool)
    (change : EntryKey → Change) (index : Nat) :
    (store.changeFirst queue fits change index).2.closed = store.closed := by
  have changes := changes_changeFirst store queue fits change index
  generalize store.changeFirst queue fits change index = served at changes ⊢
  cases changes with
  | refused | missing => rfl
  | changes => exact closed_commit ..

theorem closed_deleteEntries (store : Store) (queue : QueueKey) (fits : Entry → Bool)
    (index : Nat) : (store.deleteEntries queue fits index).2.closed = store.closed := by
  have deletes := deletes_deleteEntries store queue fits index
  generalize store.deleteEntries queue fits index = served at deletes ⊢
  cases deletes with
  | refused => rfl
  | deletes => exact closed_commit ..

theorem closed_cleanUp (store : Store) (now : UInt64) (index : Nat) :
    (store.cleanUp now index).2.closed = store.closed := by
  have cleans := cleansUp_cleanUp store now index
  generalize store.cleanUp now index = served at cleans ⊢
  cases cleans with
  | refused => rfl
  | fails _ failed => exact closed_of_commit failed
  | sweeps _ done | compacts _ done =>
    have kept := closed_of_commit done
    exact kept

theorem closed_serve (store : Store) {request : Request} (going : request ≠ .close) :
    (store.serve request).2.closed = store.closed := by
  cases request with
  | add queue message limit policy index =>
    cases message with
    | publish message => exact closed_addPublish store queue message limit policy index
    | pubrel id => exact closed_addPubrel store queue id index
  | readNew queue pool byteLimit now index =>
    exact closed_readNew store queue pool byteLimit now index
  | readInFlight | size => rfl
  | replace id packetId index => exact closed_replace store id packetId index
  | remove id packetId expected index => exact closed_remove store id packetId expected index
  | removeShared id uniqueId index =>
    exact closed_changeFirst store ⟨id, true⟩ (fun entry => entry.uniqueId? = some uniqueId)
      .delete index
  | giveBack id uniqueId index =>
    exact closed_changeFirst store ⟨id, true⟩ (isTaken uniqueId) (.mark · false) index
  | removeQos0 queue index =>
    exact closed_deleteEntries store queue (fun entry => entry.messageClass = .qos0) index
  | clear queue index => exact closed_deleteEntries store queue (fun _ => true) index
  | cleanUp now index => exact closed_cleanUp store now index
  | close => exact absurd rfl going

/-- A closed store is left alone by whatever is asked of it, and closes well again. -/
theorem serve_of_shut (shut : store.closed = true) (request : Request) :
    (∃ answer outbox, store.serve request = (answer, { store with outbox })) ∧
      (request = .close → (store.serve request).1.fault? = none) := by
  have refused (index : Nat) : store.bucket index = .error (.storage .closed) := by
    simp [Store.bucket, shut]
  cases about : request.queue? with
  | some queue =>
    obtain ⟨outbox, same⟩ := serve_of_closed (refused request.index) about
    refine ⟨⟨_, outbox, same⟩, ?_⟩
    rintro rfl
    cases about
  | none =>
    cases request with
    | cleanUp now index =>
      refine ⟨⟨.names (.error (.storage .closed)), store.outbox, ?_⟩, nofun⟩
      simp [serve, cleanUp, refused]
    | close =>
      have same : store.close = (.ok (), store) := if_pos shut
      have served : store.serve .close = (.done (.ok ()), store) := by rw [serve, same]; rfl
      exact ⟨⟨_, store.outbox, served⟩, fun _ => by rw [served]; rfl⟩
    | _ => cases about

end Store

namespace World

variable {world first : World} {before behind events : List Event}

/-- What the journals hold, and the disk. -/
def plain (world : World) : List Journal × Disk :=
  (world.store.journals.map Journal.plain, world.store.disk)

/-- Some close flushed every journal, and nothing was written afterwards. -/
def Settled (first : World) (events : List Event) : Prop :=
  ∃ before behind, events = before ++ .ask .close :: behind ∧
    (first.run before).store.Flushes (first.run (before ++ [.ask .close])).store ∧
    ∀ later, later <+: behind → (first.run (before ++ .ask .close :: later)).plain =
      (first.run (before ++ [.ask .close])).plain

/-- What closes were answered, one after the other. -/
def closings (world : World) : List Answer :=
  world.history.filterMap fun asked => if asked.1 = .close then some asked.2 else none

theorem closings_ask (world : World) (request : Request) :
    (world.ask request).closings =
      world.closings ++ if request = .close then [(world.store.serve request).1] else [] := by
  by_cases closing : request = .close <;> simp [closings, ask, closing]

theorem plain_tell (world : World) (index : Nat) (mood : Mood) :
    (world.tell index mood).plain = world.plain := by
  unfold tell
  split
  · rfl
  · rename_i bucket found
    refine Prod.ext (List.ext_getElem? fun i => ?_) rfl
    simp only [plain, Store.journals, List.getElem?_map, Array.getElem?_toList]
    by_cases here : index = i
    · subst here
      simp [Store.getElem?_set_self found, found]
    · rw [Array.getElem?_setIfInBounds_ne here]

theorem step_of_shut (shut : world.store.closed = true) {event : Event}
    (single : ∀ settings, event ≠ .restart settings) :
    (world.step event).store.closed = true ∧ (world.step event).plain = world.plain ∧
      ∃ more, (world.step event).closings = world.closings ++ more ∧
        ∀ answer ∈ more, answer.fault? = none := by
  cases event with
  | ask request =>
    obtain ⟨⟨answer, outbox, served⟩, fine⟩ := Store.serve_of_shut shut request
    refine ⟨?_, ?_, _, closings_ask world request, ?_⟩
    · simpa only [step, ask, served] using shut
    · simp only [step, ask, served]
      rfl
    · split
      · rename_i closing
        exact List.forall_mem_singleton.mpr (fine closing)
      · simp
  | call call => exact ⟨shut, rfl, [], (List.append_nil _).symm, by simp⟩
  | tell index mood =>
    refine ⟨?_, plain_tell world index mood, [], ?_, by simp⟩
    · simp only [step, tell]
      split <;> exact shut
    · simp only [step, tell]
      split <;> exact (List.append_nil _).symm
  | restart settings => exact absurd rfl (single settings)

/-- Once closed, a store stays closed and its journals as they are, and closes well. -/
theorem run_of_shut (shut : world.store.closed = true)
    (single : ∀ settings, .restart settings ∉ events) :
    (world.run events).store.closed = true ∧ (world.run events).plain = world.plain ∧
      ∃ more, (world.run events).closings = world.closings ++ more ∧
        ∀ answer ∈ more, answer.fault? = none := by
  induction events generalizing world with
  | nil => exact ⟨shut, rfl, [], (List.append_nil _).symm, by simp⟩
  | cons event events ih =>
    have first (settings : Settings) : event ≠ .restart settings := fun again =>
      single settings (again ▸ List.mem_cons_self)
    obtain ⟨still, same, more, told, fine⟩ := step_of_shut shut first
    obtain ⟨last, sameToo, rest, toldToo, fineToo⟩ := ih still fun settings member =>
      single settings (List.mem_cons_of_mem _ member)
    refine ⟨last, sameToo.trans same, more ++ rest, ?_, List.forall_mem_append.mpr ⟨fine, fineToo⟩⟩
    rw [← List.append_assoc, ← told]
    exact toldToo

/-- Until it is closed, a store is open. -/
theorem run_of_open (running : world.store.closed = false)
    (single : ∀ settings, .restart settings ∉ events) (going : .ask .close ∉ events) :
    (world.run events).store.closed = false ∧ (world.run events).closings = world.closings := by
  induction events using List.reverseRecOn with
  | nil => exact ⟨running, rfl⟩
  | append_singleton events event ih =>
    obtain ⟨still, same⟩ :=
      ih (fun settings member => single settings (List.mem_append_left _ member))
      fun member => going (List.mem_append_left _ member)
    have last : event ∈ events ++ [event] := List.mem_append_right _ (List.mem_singleton_self event)
    rw [run_concat]
    cases event with
    | ask request =>
      have other : request ≠ .close := by
        rintro rfl
        exact going last
      refine ⟨(Store.closed_serve _ other).trans still, ?_⟩
      rw [step, closings_ask, if_neg other, List.append_nil, same]
    | call call => exact ⟨still, same⟩
    | tell index mood =>
      simp only [step, tell]
      split <;> exact ⟨still, same⟩
    | restart settings => exact absurd last (single settings)

theorem run_past (world : World) (before later : List Event) (event : Event) :
    world.run (before ++ event :: later) = (world.run (before ++ [event])).run later := by
  rw [← run_append, List.append_assoc, List.singleton_append]

theorem closed_past_close (world : World) (before : List Event) :
    (world.run (before ++ [.ask .close])).store.closed = true := by
  rw [run_concat]
  exact Store.closed_close _

/-- The first close decides what is true of the journals and of all closes from then on. -/
theorem run_past_close (running : first.store.closed = false) (unasked : first.closings = [])
    (single : ∀ settings, .restart settings ∉ before ++ .ask .close :: behind)
    (going : .ask .close ∉ before) :
    (first.run before).store.closed = false ∧
      (∀ later, later <+: behind → (first.run (before ++ .ask .close :: later)).plain =
        (first.run (before ++ [.ask .close])).plain) ∧
      ((∀ answer ∈ (first.run (before ++ .ask .close :: behind)).closings,
          answer.fault? = none) ↔ (first.run before).store.close.1 = .ok ()) := by
  obtain ⟨still, none_⟩ := run_of_open running
    (fun settings member => single settings (List.mem_append_left _ member)) going
  have shut := closed_past_close first before
  have once : (first.run (before ++ [.ask .close])).closings =
      [.done (first.run before).store.close.1] := by
    rw [run_concat, step, closings_ask, none_, unasked]
    rfl
  have alone {later : List Event} (front : later <+: behind) (settings : Settings) :
      .restart settings ∉ later := fun member =>
    single settings (List.mem_append_right _ (List.mem_cons_of_mem _ (front.subset member)))
  refine ⟨still, fun later front => ?_, ?_⟩
  · rw [run_past]
    exact (run_of_shut shut (alone front)).2.1
  · obtain ⟨-, -, more, told, fine⟩ := run_of_shut shut (alone (List.prefix_refl behind))
    rw [run_past, told, once, List.forall_mem_append, List.forall_mem_singleton,
      Answer.fault?_done_eq_none]
    exact and_iff_left fine

theorem flushes_run (first : World) (before : List Event) :
    (first.run before).store.Flushes (first.run (before ++ [.ask .close])).store ↔
      (first.run before).store.closed = false ∧ (first.run before).store.close.1 = .ok () := by
  rw [run_concat, ← Store.flushes_close_iff]
  -- only the outbox was emptied
  exact ⟨fun flushes => ⟨flushes.running, flushes.flushed⟩,
    fun flushes => ⟨flushes.running, flushes.flushed⟩⟩

/-- The first close decides: the journals are settled exactly if no close failed. -/
theorem settled_iff (running : first.store.closed = false) (unasked : first.closings = [])
    (single : ∀ settings, .restart settings ∉ events) (closing : .ask .close ∈ events) :
    first.Settled events ↔ ∀ answer ∈ (first.run events).closings, answer.fault? = none := by
  constructor
  · rintro ⟨before, behind, rfl, flushes, -⟩
    obtain ⟨still, well⟩ := (flushes_run first before).mp flushes
    have going : .ask .close ∉ before := by
      intro earlier
      obtain ⟨front, back, rfl⟩ := List.append_of_mem earlier
      have apart (settings : Settings) : .restart settings ∉ back := fun member =>
        single settings (by simp [member])
      have shut := (run_of_shut (closed_past_close first front) apart).1
      rw [← run_past] at shut
      cases still.symm.trans shut
    exact (run_past_close running unasked single going).2.2.mpr well
  · obtain ⟨before, behind, rfl, going⟩ := List.eq_append_cons_of_mem closing
    obtain ⟨still, plain, fine⟩ := run_past_close running unasked single going
    intro all
    have flushes := (flushes_run first before).mpr ⟨still, fine.mp all⟩
    exact ⟨before, behind, rfl, flushes, plain⟩

/-- Closing answers well only if every journal is settled, as long as no close failed before in the
life of the store. Once one failed, closing answers well all the same. -/
theorem close_settles_iff {settings : Settings} {journals : List Journal} {disk : Disk}
    {store : Store} (opened : Store.ofJournals settings journals disk = .ok store)
    (payloads : Payloads) {events : List Event} (single : ∀ used, .restart used ∉ events)
    (well : (((start store payloads).run events).store.serve .close).1.fault? = none) :
    (start store payloads).Settled (events ++ [.ask .close]) ↔
      ∀ answer ∈ ((start store payloads).run events).closings, answer.fault? = none := by
  have running : (start store payloads).store.closed = false := Store.closed_ofJournals opened
  rw [settled_iff running rfl (by simpa using single) (by simp), run_concat, step, closings_ask,
    if_pos rfl, List.forall_mem_append, List.forall_mem_singleton]
  exact and_iff_left well

/-- A message arrives, and the journal is told to fail so many flushes. -/
def unflushed (failSyncs : Nat) : List Event :=
  [.ask (.add .client (.publish (.ofQos .atLeastOnce "u1" 1)) 10 .discard 0),
    .tell 0 ⟨none, false, false, failSyncs⟩]

/-- Two flushes fail, and the third is in time. -/
theorem close_settles_unflushed :
    (start .single .empty).Settled (unflushed 2 ++ [.ask .close]) := by
  have opened : Store.ofJournals .single [.memory .empty] .empty = .ok .single := rfl
  have single : ∀ used, .restart used ∉ unflushed 2 := by simp [unflushed]
  have well : (((start .single .empty).run (unflushed 2)).store.serve .close).1.fault? = none := by
    decide +kernel
  exact (close_settles_iff opened .empty single well).mpr (by decide +kernel)

/-- All flushes of a close fail, and the next close answers well without another. -/
theorem close_hides_failure :
    let events := unflushed 1000 ++ [.ask .close]
    let world := (start .single .empty).run events
    (world.store.serve .close).1.fault? = none ∧
      (∃ batch, (world.ask .close).store.journals =
        [.memory ⟨[batch], none, false, false, 994, 6⟩]) ∧
      ¬ (start .single .empty).Settled (events ++ [.ask .close]) := by
  intro events world
  refine ⟨by decide +kernel, ⟨_, rfl⟩, fun settled => ?_⟩
  have fine := (settled_iff rfl rfl (by simp [events, unflushed]) (by simp)).mp settled
  have failed : ∃ answer ∈ ((start .single .empty).run (events ++ [.ask .close])).closings,
      answer.fault? ≠ none := by decide +kernel
  obtain ⟨answer, member, fault⟩ := failed
  exact fault (fine answer member)

end World

end DeliveryQueue
