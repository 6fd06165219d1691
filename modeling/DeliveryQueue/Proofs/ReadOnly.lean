import DeliveryQueue.Proofs.Carrying
import DeliveryQueue.Store.Open

/-!
A store that was opened to be looked at. Its journals take nothing (`Journal.Locked`), so every
request leaves the disk and the entries alone (`Store.Still`), and one that would change an entry of
another store that holds the same is told why it does not (`Store.Guarded`).
-/
namespace DeliveryQueue

/-! Journals -/

namespace Journal

/-- The journal is in a file that was opened to be read. -/
inductive Locked : Journal → Prop
  | file {log : FileJournal} (readOnly : log.readOnly = true) : Locked (.file log)

variable {journal : Journal} (locked : journal.Locked) (disk : Disk)
include locked

theorem Locked.append (batch : Bytes) :
    journal.append disk batch = ⟨.error .readOnly, journal, disk⟩ := by
  cases locked with
  | file readOnly => simp only [Journal.append, FileJournal.append, readOnly, if_true]

theorem Locked.replaceAll (snapshot : Bytes) :
    journal.replaceAll disk snapshot = ⟨.error .readOnly, journal, disk⟩ := by
  cases locked with
  | file readOnly => simp only [Journal.replaceAll, FileJournal.replaceAll, readOnly, if_true]

theorem Locked.sync : journal.sync disk = ⟨.ok (), journal, disk⟩ := by
  cases locked with
  | file readOnly => simp only [Journal.sync, FileJournal.sync, readOnly, if_true]

theorem Locked.refused {changes : List Change} {fault : StorageFault} {after : Journal}
    {left : Disk} (refused : journal.Refused disk changes fault after left) :
    after = journal ∧ left = disk := by
  cases refused with
  | encoding => exact ⟨rfl, rfl⟩
  | append _ failed =>
    cases (locked.append disk _).symm.trans failed
    exact ⟨rfl, rfl⟩

theorem Locked.replay :
    (journal.replay disk).journal.Locked ∧ (journal.replay disk).disk = disk := by
  cases locked with
  | @file log readOnly =>
    refine ⟨.file ?_, rfl⟩
    split
    · exact readOnly
    · dsimp only
      split <;> exact readOnly

end Journal

theorem FileJournal.locked_of_openReadOnly {disk : Disk} {path : Path} {log : FileJournal}
    (opened : openReadOnly disk path = .ok log) : (Journal.file log).Locked := by
  unfold openReadOnly at opened
  split at opened
  · cases opened
  · cases opened
  · dsimp only at opened
    split at opened
    · cases opened
      exact .file rfl
    · cases scanned : inspect (disk.content _) with
      | error fault =>
        rw [scanned] at opened
        cases opened
      | ok scan =>
        rw [scanned] at opened
        cases opened
        exact .file rfl

namespace Bucket

variable {bucket : Bucket} {changes : List Change}

/-- A locked bucket refuses any change, because it is locked or because nobody could write it. -/
theorem refusal?_of_locked (locked : bucket.journal.Locked) (busy : changes ≠ []) :
    bucket.refusal? changes = some .readOnly ∨
      ∃ fault, ∀ journal, { bucket with journal }.refusal? changes = some fault := by
  have busy' : changes.isEmpty = false := by simpa using busy
  cases encoded : Batch.encode changes with
  | error fault =>
    exact .inr ⟨.corruption (.batch fault), fun journal => by simp [refusal?, busy', encoded]⟩
  | ok batch => exact .inl (by simp [refusal?, busy', encoded, locked.append])

theorem compact_of_locked (locked : bucket.journal.Locked) (disk : Disk) :
    (bucket.compact disk).2 = (bucket, disk) := by
  unfold compact
  cases encodeSnapshot : Batch.encodeSnapshot bucket.entries.bindings with
  | error fault => rfl
  | ok snapshot => simp only [locked.replaceAll]

theorem journal_replayBatches (bucket : Bucket) (budget : Budget) (top : Option UInt64)
    (batches : List Bytes) :
    (bucket.replayBatches budget top batches).2.1.journal = bucket.journal := by
  induction batches generalizing bucket budget top with
  | nil => rfl
  | cons batch batches ih =>
    simp only [replayBatches]
    cases Batch.decode batch with
    | error fault => rfl
    | ok changes => exact (ih _ _ _).trans (applyAll_frame bucket budget changes).2.1

theorem recover_of_locked (bucket : Bucket) (locked : bucket.journal.Locked) (budget : Budget)
    (disk : Disk) :
    (bucket.recover budget disk).bucket.journal.Locked ∧
      (bucket.recover budget disk).disk = disk := by
  obtain ⟨still, same⟩ := locked.replay disk
  unfold recover
  dsimp only
  split
  · exact ⟨still, same⟩
  · rw [journal_replayBatches]
    exact ⟨still, same⟩

end Bucket

namespace Store

variable {store twin after : Store} {index : Nat} {bucket : Bucket} {queue : QueueKey}
variable {changes : List Change} {released : List UInt64} {fault : StorageFault}

/-- All journals of the store are locked. -/
def Locked (store : Store) : Prop :=
  ∀ ⦃index : Nat⦄ ⦃bucket : Bucket⦄, store.buckets[index]? = some bucket → bucket.journal.Locked

/-! Opening -/

/-- Opening a locked store writes nothing. -/
structure Opens (disk : Disk) (store : Store) : Prop where
  locked : store.Locked
  disk : store.disk = disk
  outbox : store.outbox = .empty

theorem Opens.addBucket {disk : Disk} {journal : Journal} (opens : store.Opens disk)
    (locked : journal.Locked) (added : store.addBucket journal = .ok after) : after.Opens disk := by
  have recovered := (Bucket.ofJournal store.bucketCount journal).recover_of_locked locked
    store.budget store.disk
  unfold Store.addBucket at added
  dsimp only at added
  split at added
  · cases added
  · cases added
    refine ⟨?_, recovered.2.trans opens.disk, opens.outbox⟩
    intro index bucket found
    rw [Array.getElem?_push] at found
    split at found
    · cases found
      exact recovered.1
    · exact opens.locked found

theorem locked_of_openJournalsReadOnly {directory : DataDirectory} {disk : Disk} {count : Nat}
    {journals : List Journal}
    (opened : openJournalsReadOnly directory disk index count = .ok journals) :
    ∀ journal ∈ journals, journal.Locked := by
  induction count generalizing index journals with
  | zero =>
    cases opened
    simp
  | succ count ih =>
    unfold openJournalsReadOnly at opened
    split at opened
    · cases opened
    · rename_i log first
      cases rest : openJournalsReadOnly directory disk (index + 1) count with
      | error fault =>
        rw [rest] at opened
        cases opened
      | ok others =>
        rw [rest] at opened
        cases opened
        exact List.forall_mem_cons.mpr ⟨FileJournal.locked_of_openReadOnly first, ih rest⟩

theorem opens_of_openReadOnly {toml : Toml.Library} {settings : Settings} {disk : Disk}
    (opened : openReadOnly toml settings disk = .ok store) : store.Opens disk := by
  unfold openReadOnly at opened
  dsimp only at opened
  split at opened
  · cases opened
  · split at opened
    · cases opened
    · rename_i journals found
      have locked := locked_of_openJournalsReadOnly found
      refine of_ofJournals opened (fun used => ⟨?_, rfl, rfl⟩) ?_
      · intro index bucket there
        simp [blank] at there
      · exact fun journal member before after opens => opens.addBucket (locked journal member)

/-! Requests -/

/-- Nothing on the disk and no entry changed, and these payloads were released. -/
structure Still (store : Store) (released : List UInt64) (after : Store) : Prop where
  locked : after.Locked
  disk : after.disk = store.disk
  contents : after.contents = store.contents
  released : after.outbox.released = store.outbox.released ++ released

/-- The twin is of the same build and holds the same, over journals of its own. -/
structure Twin (store twin : Store) : Prop where
  overflow : twin.settings.overflow = store.settings.overflow
  closed : twin.closed = store.closed
  sequence : twin.sequence = store.sequence
  buckets : (twin.buckets.map fun bucket => { bucket with journal := .memory .empty }) =
    store.buckets.map fun bucket => { bucket with journal := .memory .empty }

/-- The request left the store alone, and reports so if it changed an entry of the twin. -/
structure Guarded {α : Type} (store twin : Store) (released : List UInt64)
    (served : Except QueueFault α × Store) (other : Store) : Prop where
  still : Still store released served.2
  refused : other.contents ≠ twin.contents → served.1 = .error (.storage .readOnly)

/-- What is at an index of a store is at that of its twin, up to the journal. -/
theorem Twin.getElem? (twins : store.Twin twin) (index : Nat) :
    (store.buckets[index]? = none ∧ twin.buckets[index]? = none) ∨
      ∃ bucket journal, store.buckets[index]? = some bucket ∧
        twin.buckets[index]? = some { bucket with journal } := by
  have same := congrArg (·[index]?) twins.buckets
  simp only [Array.getElem?_map] at same
  cases found : store.buckets[index]? with
  | none =>
    rw [found, Option.map_none, Option.map_eq_none_iff] at same
    exact .inl ⟨rfl, same⟩
  | some bucket =>
    rw [found, Option.map_some, Option.map_eq_some_iff] at same
    obtain ⟨other, foundToo, equal⟩ := same
    have whole : other = { bucket with journal := other.journal } := by
      cases other
      cases bucket
      simp only [Bucket.mk.injEq] at equal ⊢
      exact ⟨equal.1, equal.2.1, equal.2.2.1, equal.2.2.2.1, trivial⟩
    exact .inr ⟨bucket, other.journal, rfl, by rw [foundToo, ← whole]⟩

theorem Twin.opens (twins : store.Twin twin) (index : Nat) :
    (∃ fault, store.bucket index = .error fault ∧ ∃ other, twin.bucket index = .error other) ∨
      ∃ bucket journal, store.bucket index = .ok bucket ∧
        twin.bucket index = .ok { bucket with journal } := by
  unfold Store.bucket
  rw [twins.closed]
  cases store.closed with
  | true => exact .inl ⟨_, rfl, _, rfl⟩
  | false =>
    rcases twins.getElem? index with ⟨none, noneToo⟩ | ⟨bucket, journal, found, foundToo⟩
    · rw [none, noneToo]
      exact .inl ⟨_, rfl, _, rfl⟩
    · rw [found, foundToo]
      exact .inr ⟨bucket, journal, rfl, rfl⟩

theorem Still.refl (locked : store.Locked) : Still store [] store :=
  ⟨locked, rfl, rfl, (List.append_nil _).symm⟩

theorem Still.cleaned (still : Still store released after) {left : Bucket}
    (there : after.buckets[index]? = some left) (count : Nat) :
    Still store released (after.cleaned index left count) := by
  have shut : left.journal.Locked := still.locked there
  have replaced : (after.cleaned index left count).buckets =
    after.buckets.setIfInBounds index left.forgetEmptyQueues := rfl
  exact ⟨forall_set still.locked (show left.forgetEmptyQueues.journal.Locked from shut),
    still.disk, (contents_set_of_entries_eq there replaced rfl).trans still.contents,
    still.released⟩

namespace Guarded

variable {α : Type} {served : Except QueueFault α × Store} {other : Store}

/-- Where the twin is left alone too, there is nothing to refuse. -/
theorem idle (still : Still store released served.2) (same : other.contents = twin.contents) :
    Guarded store twin released served other :=
  ⟨still, fun changed => absurd same changed⟩

theorem stay (locked : store.Locked) (answer : Except QueueFault α) :
    Guarded store twin [] (answer, store) twin :=
  idle (.refl locked) rfl

theorem map {β : Type} (guarded : Guarded store twin released served other) (f : α → β) :
    Guarded store twin released (served.1.map f, served.2) other :=
  ⟨guarded.still, fun changed => by rw [guarded.refused changed]; rfl⟩

theorem answers (guarded : Guarded store twin released served other)
    {wrap : Except QueueFault α → Answer}
    (reports : ∀ {fault result}, (wrap result).fault? = some fault ↔ result = .error fault) :
    Still store released (served.map wrap id).2 ∧
      (other.contents ≠ twin.contents →
        (served.map wrap id).1.fault? = some (.storage .readOnly)) :=
  ⟨guarded.still, fun changed => reports.mpr (guarded.refused changed)⟩

end Guarded

/-- A commit that is refused changes no entry. -/
theorem contents_commit_of_refused (store : Store) (found : store.buckets[index]? = some bucket)
    (refused : bucket.refusal? changes = some fault) :
    ∃ after, store.commit index bucket changes = (.error (.storage fault), after) ∧
      after.contents = store.contents := by
  obtain ⟨journal, left, -, failed⟩ :=
    Bucket.commit_of_refusal?_eq_some refused store.budget store.disk
  simp only [commit, failed]
  exact ⟨_, rfl, contents_set_of_entries_eq found rfl rfl⟩

/-- If the journal is locked, it only settles what would have come in. -/
theorem commit_of_refused (store : Store) (locked : bucket.journal.Locked)
    (found : store.buckets[index]? = some bucket)
    (refused : bucket.refusal? changes = some fault) :
    store.commit index bucket changes = (.error (.storage fault),
      store.releaseEntries (changes.filterMap Change.inserted?)) := by
  obtain ⟨journal, left, told, failed⟩ :=
    Bucket.commit_of_refusal?_eq_some refused store.budget store.disk
  obtain ⟨rfl, rfl⟩ := locked.refused store.disk told
  simp only [commit, failed, setIfInBounds_self found]

theorem guarded_commit (twin : Store) (locked : store.Locked)
    (found : store.buckets[index]? = some bucket) {journal : Journal}
    (foundToo : twin.buckets[index]? = some { bucket with journal })
    (given : (changes.filterMap Change.inserted?).filterMap Entry.payload? = released) :
    Guarded store twin released (store.commit index bucket changes)
      (twin.commit index { bucket with journal } changes).2 := by
  by_cases idle : changes = []
  · subst idle given
    rw [commit_nil found, commit_nil foundToo]
    exact .stay locked _
  · have still : Still store released (store.releaseEntries (changes.filterMap Change.inserted?)) :=
      ⟨locked, rfl, rfl, by rw [← given]; rfl⟩
    rcases Bucket.refusal?_of_locked (locked found) idle with refused | ⟨fault, refused⟩
    · rw [commit_of_refused store (locked found) found refused]
      exact ⟨still, fun _ => rfl⟩
    · have here : bucket.refusal? changes = some fault := refused bucket.journal
      obtain ⟨other, failed, same⟩ := contents_commit_of_refused twin foundToo (refused journal)
      rw [commit_of_refused store (locked found) found here, failed]
      exact .idle still same

/-- The same for a commit that drew a number. -/
theorem guarded_advance (locked : store.Locked) (found : store.buckets[index]? = some bucket)
    {journal : Journal} (foundToo : twin.buckets[index]? = some { bucket with journal })
    (given : (changes.filterMap Change.inserted?).filterMap Entry.payload? = released) :
    Guarded store twin released
      ({ store with sequence := store.sequence.advance }.commit index bucket changes)
      ({ twin with sequence := twin.sequence.advance }.commit index { bucket with journal }
        changes).2 := by
  have locked' : { store with sequence := store.sequence.advance }.Locked := locked
  have guarded := guarded_commit { twin with sequence := twin.sequence.advance } locked' found
    foundToo given
  exact ⟨⟨guarded.still.locked, guarded.still.disk, guarded.still.contents,
    guarded.still.released⟩, guarded.refused⟩

/-- Locked journals have nothing to flush. -/
theorem flushAll_of_locked (retries : Nat) (disk : Disk) {buckets : List Bucket}
    (all : ∀ bucket ∈ buckets, bucket.journal.Locked) :
    flushAll retries disk buckets = (.ok (), buckets, disk) := by
  induction buckets with
  | nil => rfl
  | cons bucket buckets ih =>
    obtain ⟨first, others⟩ := List.forall_mem_cons.mp all
    have flushed : flush bucket disk retries = (.ok (), bucket, disk) := by
      cases retries <;> simp only [flush, Bucket.sync, first.sync]
    rw [flushAll, flushed]
    dsimp only
    rw [ih others]

theorem guarded_close (locked : store.Locked) (twin : Store) :
    Guarded store twin [] store.close twin.close.2 := by
  refine .idle ?_ (close_silent twin).1
  have closes := closes_close store
  generalize store.close = served at closes ⊢
  cases closes with
  | again => exact .refl locked
  | flushes =>
    rw [flushAll_of_locked _ _ (forall_toList locked), Array.toArray_toList]
    exact ⟨locked, rfl, rfl, (List.append_nil _).symm⟩

section Serve
variable (locked : store.Locked) (twins : store.Twin twin)
include locked twins

/-- Where both are closed, or have no such bucket, nothing happens. -/
theorem guarded_of_opened {α : Type} {served servedToo : Bucket → Except QueueFault α × Store}
    (opens : ∀ bucket journal, store.bucket index = .ok bucket →
      twin.bucket index = .ok { bucket with journal } →
        Guarded store twin [] (served bucket) (servedToo { bucket with journal }).2) :
    Guarded store twin []
      (match store.bucket index with
        | .error fault => (.error fault, store)
        | .ok bucket => served bucket)
      (match twin.bucket index with
        | .error fault => ((.error fault, twin) : Except QueueFault α × Store)
        | .ok bucket => servedToo bucket).2 := by
  rcases twins.opens index with
    ⟨fault, refused, other, refusedToo⟩ | ⟨bucket, journal, opened, openedToo⟩
  · rw [refused, refusedToo]
    exact .stay locked _
  · rw [opened, openedToo]
    exact opens bucket journal opened openedToo

theorem guarded_enqueue (found : store.buckets[index]? = some bucket) {journal : Journal}
    (foundToo : twin.buckets[index]? = some { bucket with journal }) (message : Publish)
    (evicted : Option EntryKey) :
    Guarded store twin [message.payload] (store.enqueue queue message evicted index bucket)
      (twin.enqueue queue message evicted index { bucket with journal }).2 := by
  have busy : arrival evicted ⟨queue, store.sequence.next⟩ message ≠ [] := by simp [arrival]
  have still : Still store [message.payload] ({ store with
      sequence := store.sequence.advance }.releaseEntries
        ((arrival evicted ⟨queue, store.sequence.next⟩ message).filterMap Change.inserted?)) :=
    ⟨locked, rfl, rfl, congrArg (store.outbox.released ++ ·) (payload?_arrival evicted _ message)⟩
  have failed {fault : StorageFault} (refused :
      bucket.refusal? (arrival evicted ⟨queue, store.sequence.next⟩ message) = some fault) :=
    commit_of_refused { store with sequence := store.sequence.advance } (locked found) found
      refused
  unfold enqueue
  dsimp only
  rw [← arrival, ← arrival]
  rcases Bucket.refusal?_of_locked (locked found) busy with refused | ⟨fault, refused⟩
  · rw [failed refused]
    exact ⟨still, fun _ => rfl⟩
  · obtain ⟨other, failedToo, same⟩ := contents_commit_of_refused
      { twin with sequence := store.sequence.advance } foundToo (refused journal)
    rw [failed (refused bucket.journal), twins.sequence, failedToo]
    exact .idle still same

theorem guarded_addPublish (message : Publish) (limit : Nat) (policy : DiscardPolicy) :
    Guarded store twin [message.payload] (store.addPublish queue message limit policy index)
      (twin.addPublish queue message limit policy index).2 := by
  unfold addPublish
  rcases twins.opens index with
    ⟨fault, refused, other, refusedToo⟩ | ⟨bucket, journal, opened, openedToo⟩
  · rw [refused, refusedToo]
    exact .idle ⟨locked, rfl, rfl, rfl⟩ rfl
  · have found := getElem?_of_bucket opened
    have foundToo := getElem?_of_bucket openedToo
    rw [opened, openedToo]
    dsimp only [Bucket.classSize, Bucket.counts?, Bucket.oldestEvictable?, Bucket.queueEntries]
    split
    · exact guarded_enqueue locked twins found foundToo message none
    · exact .idle ⟨locked, rfl, rfl, rfl⟩ rfl
    · split
      · exact guarded_enqueue locked twins found foundToo message _
      · exact .idle ⟨locked, rfl, rfl, rfl⟩ rfl

theorem guarded_enqueuePubrel (found : store.buckets[index]? = some bucket) {journal : Journal}
    (foundToo : twin.buckets[index]? = some { bucket with journal }) (packetId : UInt16) :
    Guarded store twin [] (store.enqueuePubrel queue packetId index bucket)
      (twin.enqueuePubrel queue packetId index { bucket with journal }).2 := by
  have given : ([Change.insert ⟨queue, store.sequence.next⟩ (.pubrel packetId)].filterMap
      Change.inserted?).filterMap Entry.payload? = [] := rfl
  unfold enqueuePubrel
  rw [twins.sequence]
  exact twins.sequence ▸ guarded_advance locked found foundToo given

theorem guarded_addPubrel (packetId : UInt16) :
    Guarded store twin [] (store.addPubrel queue packetId index)
      (twin.addPubrel queue packetId index).2 := by
  unfold addPubrel
  refine guarded_of_opened locked twins fun bucket journal opened openedToo => ?_
  dsimp only [Bucket.inFlightKey?, Bucket.counts?]
  split
  · exact .stay locked _
  · exact guarded_enqueuePubrel locked twins (getElem?_of_bucket opened)
      (getElem?_of_bucket openedToo) packetId

theorem guarded_readNew (pool : List UInt16) (byteLimit now : UInt64) :
    Guarded store twin [] (store.readNew queue pool byteLimit now index)
      (twin.readNew queue pool byteLimit now index).2 := by
  unfold readNew
  refine guarded_of_opened locked twins fun bucket journal opened openedToo => ?_
  dsimp only [Bucket.counts?]
  rw [twins.overflow]
  split
  · exact .stay locked _
  · rename_i counts counted
    have delivers := delivers_reading store.settings.overflow bucket queue counts pool byteLimit now
    have same : deliver queue.shared now ⟨pool.length, counts.packetIds.free pool, none, byteLimit,
        store.settings.overflow⟩ ({ bucket with journal }.queueEntries queue) =
          reading store.settings.overflow bucket queue counts pool byteLimit now := rfl
    rw [same, ← reading]
    generalize reading store.settings.overflow bucket queue counts pool byteLimit now = delivery
      at delivers ⊢
    split
    · exact .stay locked _
    have given : (delivery.changes.filterMap Change.inserted?).filterMap Entry.payload? = [] := by
      rw [delivers.inserted?]
      rfl
    have guarded := guarded_commit twin locked (getElem?_of_bucket opened)
      (getElem?_of_bucket openedToo) given
    generalize store.commit index bucket _ = done at guarded ⊢
    generalize twin.commit index _ _ = doneToo at guarded ⊢
    -- both count the expired, or not, after they committed or failed to
    obtain ⟨_ | _, after⟩ := done <;> obtain ⟨_ | _, other⟩ := doneToo <;>
      exact ⟨⟨guarded.still.locked, guarded.still.disk, guarded.still.contents,
        guarded.still.released⟩, fun changed => by cases guarded.refused changed <;> rfl⟩

theorem guarded_replace (id : String) (packetId : UInt16) :
    Guarded store twin [] (store.replace id packetId index)
      (twin.replace id packetId index).2 := by
  unfold replace
  refine guarded_of_opened locked twins fun bucket journal opened openedToo => ?_
  have found := getElem?_of_bucket opened
  have foundToo := getElem?_of_bucket openedToo
  dsimp only [Bucket.inFlightKey?, Bucket.counts?]
  split
  · exact (guarded_enqueuePubrel locked twins found foundToo packetId).map _
  · split
    · refine (guarded_commit twin locked found foundToo ?_).map _
      rfl
    · exact .stay locked _

theorem guarded_remove (id : String) (packetId : UInt16) (expected : Option String) :
    Guarded store twin [] (store.remove id packetId expected index)
      (twin.remove id packetId expected index).2 := by
  unfold remove
  refine guarded_of_opened locked twins fun bucket journal opened openedToo => ?_
  dsimp only [Bucket.inFlightKey?, Bucket.counts?]
  split
  · exact .stay locked _
  · split
    · exact .stay locked _
    · refine (guarded_commit twin locked (getElem?_of_bucket opened)
        (getElem?_of_bucket openedToo) ?_).map _
      rfl

theorem guarded_changeFirst {fits : Entry → Bool} {change : EntryKey → Change}
    (brings : ∀ key, (change key).inserted? = none) :
    Guarded store twin [] (store.changeFirst queue fits change index)
      (twin.changeFirst queue fits change index).2 := by
  unfold changeFirst
  refine guarded_of_opened locked twins fun bucket journal opened openedToo => ?_
  dsimp only [Bucket.queueEntries]
  split
  · exact .stay locked _
  · exact (guarded_commit twin locked (getElem?_of_bucket opened) (getElem?_of_bucket openedToo)
      (by simp [brings])).map _

theorem guarded_deleteEntries {fits : Entry → Bool} :
    Guarded store twin [] (store.deleteEntries queue fits index)
      (twin.deleteEntries queue fits index).2 := by
  unfold deleteEntries
  refine guarded_of_opened locked twins fun bucket journal opened openedToo => ?_
  change Guarded store twin [] (store.commit index bucket (deletions bucket queue fits))
    (twin.commit index { bucket with journal } (deletions bucket queue fits)).2
  refine guarded_commit twin locked (getElem?_of_bucket opened) (getElem?_of_bucket openedToo) ?_
  rw [deletions_eq, inserted?_deletes]
  rfl

theorem guarded_cleanUp (now : UInt64) :
    Guarded store twin [] (store.cleanUp now index) (twin.cleanUp now index).2 := by
  rcases twins.opens index with
    ⟨fault, refused, other, refusedToo⟩ | ⟨bucket, journal, opened, openedToo⟩
  · unfold cleanUp
    rw [refused, refusedToo]
    exact .stay locked _
  have found := getElem?_of_bucket opened
  have foundToo := getElem?_of_bucket openedToo
  have guarded : Guarded store twin []
      (store.commit index bucket ((staleKeys bucket now).map .delete))
      (twin.commit index { bucket with journal } ((staleKeys bucket now).map .delete)).2 := by
    refine guarded_commit twin locked found foundToo ?_
    rw [inserted?_deletes]
    rfl
  have elsewhere : (twin.cleanUp now index).2.contents ≠ twin.contents →
      (store.commit index bucket ((staleKeys bucket now).map .delete)).1 =
        .error (.storage .readOnly) := by
    intro changed
    apply guarded.refused
    rcases cleanUp_cases twin now index with
      same | ⟨_, again, ⟨_, _, failed, same⟩ | ⟨_, done, same, _⟩⟩
    · exact absurd (congrArg contents same) changed
    · cases again.symm.trans foundToo
      have stale : staleKeys { bucket with journal } now = staleKeys bucket now := rfl
      rw [stale] at failed
      rwa [failed, ← same]
    · cases again.symm.trans foundToo
      have stale : staleKeys { bucket with journal } now = staleKeys bucket now := rfl
      rw [stale] at done
      rwa [done, ← same]
  have cleans := cleansUp_cleanUp store now index
  generalize store.cleanUp now index = served at cleans ⊢
  cases cleans with
  | refused closed => cases closed.symm.trans opened
  | fails again failed =>
    cases again.symm.trans opened
    rw [failed] at guarded elsewhere
    exact ⟨guarded.still, fun changed => by cases elsewhere changed; rfl⟩
  | @sweeps _ swept left again done there =>
    cases again.symm.trans opened
    rw [done] at guarded elsewhere
    exact ⟨guarded.still.cleaned there _, fun changed => by cases elsewhere changed⟩
  | @compacts _ swept left again done there =>
    cases again.symm.trans opened
    rw [done] at guarded elsewhere
    have shut : left.forgetEmptyQueues.journal.Locked :=
      (guarded.still.locked there : left.journal.Locked)
    rw [Bucket.compact_of_locked shut, Array.setIfInBounds_setIfInBounds]
    exact ⟨guarded.still.cleaned there _, fun changed => by cases elsewhere changed⟩

/-- Every request is served without any change. -/
theorem guarded_serve (request : Request) :
    Still store (request.offer?.toList.map fun offer => offer.message.payload)
        (store.serve request).2 ∧
      ((twin.serve request).2.contents ≠ twin.contents →
        (store.serve request).1.fault? = some (.storage .readOnly)) := by
  cases request with
  | add queue message limit policy index =>
    cases message with
    | publish message =>
      exact (guarded_addPublish locked twins message limit policy).answers Answer.fault?_done
    | pubrel id => exact (guarded_addPubrel locked twins id).answers Answer.fault?_done
  | readNew queue pool byteLimit now index =>
    exact (guarded_readNew locked twins pool byteLimit now).answers Answer.fault?_messages
  | readInFlight | size => exact ⟨.refl locked, fun changed => absurd rfl changed⟩
  | replace id packetId index =>
    exact (guarded_replace locked twins id packetId).answers Answer.fault?_uniqueId
  | remove id packetId expected index =>
    exact (guarded_remove locked twins id packetId expected).answers Answer.fault?_uniqueId
  | removeShared id uniqueId index =>
    exact (guarded_changeFirst locked twins fun _ => by rfl).answers Answer.fault?_found
  | giveBack id uniqueId index =>
    exact (guarded_changeFirst locked twins fun _ => by rfl).answers Answer.fault?_found
  | removeQos0 queue index =>
    exact (guarded_deleteEntries locked twins).answers Answer.fault?_done
  | clear queue index => exact (guarded_deleteEntries locked twins).answers Answer.fault?_done
  | cleanUp now index => exact (guarded_cleanUp locked twins now).answers Answer.fault?_names
  | close => exact (guarded_close locked twin).answers Answer.fault?_done

end Serve

theorem Twin.refl (store : Store) : store.Twin store := ⟨rfl, rfl, rfl, rfl⟩

/-- The same over fresh journals in memory. -/
def onMemory (store : Store) : Store :=
  { store with
    buckets := store.buckets.map fun bucket => { bucket with journal := .memory .empty } }

theorem twin_onMemory (store : Store) : store.Twin store.onMemory :=
  ⟨rfl, rfl, rfl, by rw [onMemory, Array.map_map]; rfl⟩

end Store

namespace World

theorem opens_ask {world : World} {disk : Disk} (opens : world.store.Opens disk)
    (request : Request) : (world.ask request).store.Opens disk ∧
      (world.ask request).store.contents = world.store.contents := by
  have still := (Store.guarded_serve opens.locked (.refl world.store) request).1
  exact ⟨⟨still.locked, still.disk.trans opens.disk, rfl⟩, still.contents⟩

theorem opens_run {world : World} {disk : Disk} (opens : world.store.Opens disk)
    (requests : List Request) : (world.run (requests.map .ask)).store.Opens disk ∧
      (world.run (requests.map .ask)).store.contents = world.store.contents := by
  induction requests generalizing world with
  | nil => exact ⟨opens, rfl⟩
  | cons request requests ih =>
    obtain ⟨next, same⟩ := opens_ask opens request
    obtain ⟨last, sameToo⟩ := ih next
    exact ⟨last, sameToo.trans same⟩

/-- A store that was opened to be looked at changes nothing, whatever is asked of it, closing
included: the disk keeps all its files and their bytes, and the store all its entries. What would
change an entry of a store that holds the same, over any journals, fails because the journals are
read-only. The payload of a message that is handed in is released once, and no other is. -/
theorem looking_changes_nothing {toml : Toml.Library} {settings : Settings} {disk : Disk}
    {store : Store} (opened : Store.openReadOnly toml settings disk = .ok store)
    (payloads : Payloads) (requests : List Request) :
    let world := (start store payloads).run (requests.map .ask)
    world.store.disk = disk ∧ world.store.contents = store.contents ∧
      ∀ request,
        (∀ twin, world.store.Twin twin → (twin.serve request).2.contents ≠ twin.contents →
          (world.store.serve request).1.fault? = some (.storage .readOnly)) ∧
        (world.store.serve request).2.outbox.released =
          request.offer?.toList.map fun offer => offer.message.payload := by
  intro world
  have first : (start store payloads).store.Opens disk := Store.opens_of_openReadOnly opened
  obtain ⟨opens, same⟩ := opens_run first requests
  refine ⟨opens.disk, same, fun request => ⟨fun twin twins => ?_, ?_⟩⟩
  · exact (Store.guarded_serve opens.locked twins request).2
  · have still := (Store.guarded_serve opens.locked (.refl world.store) request).1
    rw [still.released, opens.outbox]
    exact List.nil_append _

/-- The root is the data directory, and one message waits in its only journal. -/
def shelved : Disk where
  directories := #[(∅ : Directory).insert "bucket-0.journal" (.file 0)]
  files := #[.ofBytes (Record.header ++ Record.encode 1 (Batch.bytes
    [.insert ⟨.client, 0⟩ (.publish (.ofPublish (.ofQos .atLeastOnce "u1" 1)))]))]
  workingDirectory := []

/-- A store that was opened to look at this disk. -/
def looking : Store :=
  match Store.openReadOnly .own { Settings.single with dataDir := "/" } shelved with
  | .ok store => store
  | .error _ => .single

theorem openReadOnly_shelved :
    Store.openReadOnly .own { Settings.single with dataDir := "/" } shelved = .ok looking := by
  have fine : (Store.openReadOnly .own { Settings.single with dataDir := "/" } shelved).isOk =
    true := by decide +kernel
  unfold looking
  cases opened : Store.openReadOnly .own { Settings.single with dataDir := "/" } shelved with
  | error fault =>
    rw [opened] at fine
    cases fine
  | ok store => rfl

/-- A second message is turned down, and the first one is not cleared away, as it would be over a
journal in memory. -/
theorem looking_changes_nothing_shelved :
    let add := Request.add .client (.publish (.ofQos .atLeastOnce "u2" 2)) 10 .discard 0
    let clear := Request.clear .client 0
    let world := (start looking .empty).run ([add].map .ask)
    let twin := world.store.onMemory
    world.store.disk = shelved ∧ world.store.contents = looking.contents ∧
      (twin.serve clear).2.contents ≠ twin.contents ∧
      (world.store.serve clear).1.fault? = some (.storage .readOnly) ∧
      (world.store.serve add).2.outbox.released = [2] := by
  intro add clear world twin
  obtain ⟨disk, contents, asked⟩ : world.store.disk = shelved ∧
      world.store.contents = looking.contents ∧ ∀ request, _ ∧
        (world.store.serve request).2.outbox.released =
          request.offer?.toList.map fun offer => offer.message.payload :=
    looking_changes_nothing openReadOnly_shelved .empty [add]
  have changed : (twin.serve clear).2.contents ≠ twin.contents := by decide +kernel
  exact ⟨disk, contents, changed, (asked clear).1 twin world.store.twin_onMemory changed,
    (asked add).2⟩

end World

end DeliveryQueue
