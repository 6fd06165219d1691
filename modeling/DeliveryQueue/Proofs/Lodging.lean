import DeliveryQueue.Proofs.Founding
import DeliveryQueue.Proofs.Contents
import DeliveryQueue.Proofs.Serving

/-!
A store in its data directory. Each bucket journals into the file of its index and holds queues that
belong there (`Store.Lodges`). Whatever is asked of the store by the ids of queues keeps it so.
-/
namespace DeliveryQueue

open DataDirectory

/-! Queues and their buckets -/

namespace Table.Routed

variable {entries : Entries} {changes : List Change} {count index : Nat}

theorem actAll (routed : Routed entries count index)
    (its : ∀ change ∈ changes, bucketIndex change.key.queue.id count = index) :
    Routed (Change.actAll entries changes) count index := by
  intro key entry found
  rcases Change.mem_of_get?_actAll found with before | ⟨change, member, rfl⟩
  · exact routed before
  · exact its change member

/-- Edits fall on what is stored. -/
theorem edits (routed : Routed entries count index) (edits : EditsAlong entries changes) :
    ∀ change ∈ changes, bucketIndex change.key.queue.id count = index := by
  induction changes generalizing entries with
  | nil => exact List.forall_mem_nil _
  | cons change changes ih =>
    obtain ⟨entry, found⟩ := edits.1.stored
    have first := routed found
    have next : Routed (Change.actAll entries [change]) count index :=
      routed.actAll (by simpa using first)
    exact List.forall_mem_cons.mpr ⟨first, ih next edits.2⟩

end Table.Routed

/-! A bucket and its file -/

namespace Bucket

variable {bucket : Bucket} {directory : DataDirectory} {disk after : Disk} {place index : Nat}
variable {changes : List Change}

/-- The bucket journals into the file of an index, and the file replays to the entries. -/
structure Lodged (bucket : Bucket) (directory : DataDirectory) (disk : Disk) (index : Nat) :
    Prop where
  agrees : bucket.Agrees
  sound : Sound bucket.entries
  filed : ∃ journal log, bucket.journal = .file journal ∧
    journal.path = directory.journalPath index ∧ journal.Holds disk log ∧
      Recalls log bucket.entries

namespace Lodged

variable (lodged : bucket.Lodged directory disk index) (there : directory.place? disk = some place)
include lodged

theorem forgetEmptyQueues : bucket.forgetEmptyQueues.Lodged directory disk index :=
  ⟨lodged.agrees.forgetEmptyQueues, lodged.sound, lodged.filed⟩

/-- A file on a sound device flushes at once. -/
theorem flush (retries : Nat) : (Store.flush bucket disk retries).1 = .ok () ∧
    (Store.flush bucket disk retries).2.1.Lodged directory disk index := by
  obtain ⟨journal, log, its, path, holds, recalls⟩ := lodged.filed
  obtain ⟨after, flushed, held, -, samePath⟩ := holds.sync
  have synced : bucket.sync disk = (.ok (), { bucket with journal := .file after }, disk) := by
    rw [Bucket.sync, its, Journal.sync, flushed]
  have once : Store.flush bucket disk retries = bucket.sync disk := by
    cases retries with
    | zero => rfl
    | succ retries => rw [Store.flush, synced]
  rw [once, synced]
  exact ⟨rfl, lodged.agrees.withJournal _, lodged.sound, after, log, rfl, samePath.trans path, held,
    recalls⟩

include there

theorem aside {mine : List String} (aside : disk.Aside place mine after)
    (foreign : journalName index ∉ mine) : bucket.Lodged directory after index := by
  obtain ⟨journal, log, its, path, holds, recalls⟩ := lodged.filed
  exact ⟨lodged.agrees, lodged.sound, journal, log, its, path,
    holds.aside path there aside foreign, recalls⟩

theorem files : ∃ log, disk.Files place index log ∧ Recalls log bucket.entries := by
  obtain ⟨journal, log, its, path, holds, recalls⟩ := lodged.filed
  exact ⟨log, holds.files path there, recalls⟩

theorem commit (apart : disk.Apart place) (lawful : Change.LawfulAlong bucket.entries changes)
    (budget : Budget) :
    disk.Aside place [journalName index] (bucket.commit budget disk changes).disk ∧
      (bucket.commit budget disk changes).bucket.Lodged directory
        (bucket.commit budget disk changes).disk index ∧
      ((bucket.commit budget disk changes).bucket.entries = bucket.entries ∨
        (bucket.commit budget disk changes).bucket.entries =
          Change.actAll bucket.entries changes) := by
  obtain ⟨journal, log, its, path, holds, recalls⟩ := lodged.filed
  have still := Disk.Aside.refl holds.sound apart [journalName index]
  by_cases idle : changes = []
  · simp only [Bucket.commit, idle, List.isEmpty_nil, if_true]
    exact ⟨still, lodged, .inl trivial⟩
  · have busy : changes.isEmpty = false := by simpa using idle
    cases encoded : Batch.encode changes with
    | error fault =>
      simp only [Bucket.commit, busy, encoded, Bool.false_eq_true, if_false]
      exact ⟨still, lodged, .inl trivial⟩
    | ok batch =>
      obtain ⟨short, rfl⟩ := Batch.encode_eq_ok_iff.mp encoded
      simp only [Bucket.commit, busy, encoded, Bool.false_eq_true, if_false, its, Journal.append]
      by_cases light : (Batch.bytes changes).length < UInt32.size
      · obtain ⟨longer, left, done, held, -, same⟩ := holds.append light
        have aside := holds.aside_append path there apart done
        have frame := applyAll_frame { bucket with journal := .file longer } budget changes
        simp only [done]
        refine ⟨aside, ⟨?_, ?_, longer, _, frame.2.1, same.trans path, held, ?_⟩, .inr frame.1⟩
        · exact (lodged.agrees.withJournal _).applyAll budget lawful
        · rw [frame.1]
          exact lawful.sound lodged.sound
        · rw [frame.1]
          exact recalls.concat short lawful
      · rw [holds.append_of_heavy (Nat.le_of_not_lt light)]
        refine ⟨still, ⟨lodged.agrees.withJournal _, lodged.sound, ?_⟩, .inl rfl⟩
        exact ⟨journal, log, rfl, path, holds, recalls⟩

theorem compact (apart : disk.Apart place) :
    disk.Aside place [journalName index, draftName index] (bucket.compact disk).2.2 ∧
      (bucket.compact disk).2.1.Lodged directory (bucket.compact disk).2.2 index ∧
      (bucket.compact disk).2.1.entries = bucket.entries := by
  obtain ⟨journal, log, its, path, holds, recalls⟩ := lodged.filed
  have same : Batch.encodeSnapshot bucket.entries.bindings =
      Batch.encode (snapshot bucket.entries) := Batch.encodeSnapshot_eq_encode _
  cases encoded : Batch.encode (snapshot bucket.entries) with
  | error fault =>
    simp only [Bucket.compact, same, encoded]
    exact ⟨.refl holds.sound apart _, lodged, trivial⟩
  | ok batch =>
    obtain ⟨short, rfl⟩ := Batch.encode_eq_ok_iff.mp encoded
    simp only [Bucket.compact, same, encoded, its, Journal.replaceAll]
    rcases holds.aside_replaceAll path there (Batch.bytes (snapshot bucket.entries)) apart
      with ⟨fault, left, failed, aside⟩ | ⟨shorter, left, done, aside⟩
    · have foreign : journalName index ∉ [draftName index] := by
        simpa using draftName_ne index index
      rw [failed]
      refine ⟨aside.mono (by simp), ⟨lodged.agrees.withJournal _, lodged.sound, ?_⟩, trivial⟩
      exact ⟨journal, log, rfl, path, holds.aside path there aside foreign, recalls⟩
    · obtain ⟨held, -, samePath⟩ := holds.replaceAll done
      rw [done]
      refine ⟨aside, ⟨lodged.agrees.withJournal _, lodged.sound, ?_⟩, trivial⟩
      exact ⟨shorter, _, rfl, samePath.trans path, held, .snapshot lodged.sound short⟩

end Lodged

end Bucket

/-! A store and its files -/

namespace Store

variable {store after : Store} {directory : DataDirectory} {toml : Toml.Library}
variable {place count index : Nat} {bucket : Bucket} {queue : QueueKey} {changes : List Change}

/-- Each bucket of the store journals into its file and holds queues that belong there. -/
structure Lodges (store : Store) (directory : DataDirectory) (toml : Toml.Library)
    (place count : Nat) : Prop where
  sound : store.disk.Sound
  apart : store.disk.Apart place
  there : directory.place? store.disk = some place
  records : directory.Records toml store.disk place count
  size : store.buckets.size = count
  lodged : ∀ ⦃index bucket⦄, store.buckets[index]? = some bucket →
    Bucket.Lodged bucket directory store.disk index
  routed : ∀ ⦃index bucket⦄, store.buckets[index]? = some bucket →
    Table.Routed (Bucket.entries bucket) count index

namespace Lodges

theorem of_eq (lodges : store.Lodges directory toml place count) (disk : after.disk = store.disk)
    (buckets : after.buckets = store.buckets) : after.Lodges directory toml place count := by
  obtain ⟨sound, apart, there, records, size, lodged, routed⟩ := lodges
  rw [← disk] at sound apart there records lodged
  rw [← buckets] at size lodged routed
  exact ⟨sound, apart, there, records, size, lodged, routed⟩

theorem keeps (lodges : store.Lodges directory toml place count) :
    directory.Keeps toml store.disk place store.contents where
  sound := lodges.sound
  apart := lodges.apart
  there := lodges.there
  records := by
    rw [contents, Array.size_map, lodges.size]
    exact lodges.records
  journals index entries found := by
    rw [contents, Array.getElem?_map] at found
    obtain ⟨bucket, there, rfl⟩ := Option.map_eq_some_iff.mp found
    exact (lodges.lodged there).files lodges.there
  routed index entries found := by
    rw [contents, Array.getElem?_map] at found
    obtain ⟨bucket, there, rfl⟩ := Option.map_eq_some_iff.mp found
    rw [contents, Array.size_map, lodges.size]
    exact lodges.routed there

theorem cases_of_set {buckets : Array Bucket} {i : Nat} {new other : Bucket}
    (found : (buckets.setIfInBounds index new)[i]? = some other) :
    i = index ∧ other = new ∨ i ≠ index ∧ buckets[i]? = some other := by
  rw [Array.getElem?_setIfInBounds] at found
  split at found
  · rename_i same
    split at found
    · cases found
      exact .inl ⟨same.symm, rfl⟩
    · cases found
  · rename_i differs
    exact .inr ⟨Ne.symm differs, found⟩

/-- A bucket may write its own file and the draft of it. -/
theorem set (lodges : store.Lodges directory toml place count) {left : Disk} {new : Bucket}
    (aside : store.disk.Aside place [journalName index, draftName index] left)
    (lodged : new.Lodged directory left index) (routed : Table.Routed new.entries count index) :
    { store with
      buckets := store.buckets.setIfInBounds index new
      disk := left }.Lodges directory toml place count where
  sound := aside.sound
  apart := aside.apart
  there := place?_of_alike aside.alike lodges.there
  records := lodges.records.aside aside (by simp [layout_ne index, layout_ne_draftName index])
  size := Array.size_setIfInBounds.trans lodges.size
  lodged i other found := by
    rcases cases_of_set found with ⟨rfl, rfl⟩ | ⟨differs, found⟩
    · exact lodged
    · refine (lodges.lodged found).aside lodges.there aside ?_
      have foreign : journalName i ≠ journalName index := fun same =>
        differs (journalName_inj same)
      simp [foreign, draftName_ne index i]
  routed i other found := by
    rcases cases_of_set found with ⟨rfl, rfl⟩ | ⟨-, found⟩
    · exact routed
    · exact lodges.routed found

variable (lodges : store.Lodges directory toml place count)
include lodges

theorem commit (found : store.buckets[index]? = some bucket)
    (lawful : Change.LawfulAlong bucket.entries changes)
    (its : ∀ change ∈ changes, bucketIndex change.key.queue.id count = index) :
    (store.commit index bucket changes).2.Lodges directory toml place count := by
  obtain ⟨aside, lodged, entries⟩ :=
    (lodges.lodged found).commit lodges.there lodges.apart lawful store.budget
  have routed : Table.Routed (bucket.commit store.budget store.disk changes).bucket.entries count
      index := by
    rcases entries with same | changed
    · rw [same]
      exact lodges.routed found
    · rw [changed]
      exact (lodges.routed found).actAll its
  have done := lodges.set (aside.mono (by simp)) lodged routed
  unfold Store.commit
  dsimp only
  split <;> exact done.of_eq rfl rfl

theorem edit (found : store.buckets[index]? = some bucket)
    (edits : EditsAlong bucket.entries changes) :
    (store.commit index bucket changes).2.Lodges directory toml place count :=
  lodges.commit found (edits.lawful (lodges.lodged found).sound) ((lodges.routed found).edits edits)

theorem delete (found : store.buckets[index]? = some bucket) {key : EntryKey} {entry : Entry}
    (stored : bucket.entries.get? key = some entry) :
    (store.commit index bucket [.delete key]).2.Lodges directory toml place count :=
  lodges.edit found ⟨.delete stored, trivial⟩

/-! Adding -/

theorem evictQos0 (fuel : Nat) : (store.evictQos0 fuel).Lodges directory toml place count := by
  induction fuel generalizing store with
  | zero => exact lodges
  | succ fuel ih =>
    unfold Store.evictQos0
    split
    · split
      · exact lodges
      · rename_i index key _
        split
        · exact lodges
        · rename_i bucket found
          split
          · exact lodges
          · rename_i message holds
            obtain ⟨entry, stored, _⟩ := Option.bind_eq_some_iff.mp holds
            have deleted := lodges.delete found stored
            generalize store.commit index bucket [.delete key] = committed at deleted
            obtain ⟨answer, after⟩ := committed
            cases answer with
            | error fault => exact deleted.of_eq rfl rfl
            | ok => exact ih (deleted.of_eq rfl rfl)
    · exact lodges

theorem enqueue (found : store.buckets[index]? = some bucket)
    (its : bucketIndex queue.id count = index) (message : Publish) {evicted : Option EntryKey}
    (stored : ∀ key ∈ evicted, ∃ entry, bucket.entries.get? key = some entry) :
    (store.enqueue queue message evicted index bucket).2.Lodges directory toml place count := by
  have arrived : ({ store with sequence := store.sequence.advance }.commit index bucket
      (arrival evicted ⟨queue, store.sequence.next⟩ message)).2.Lodges directory toml place
        count := by
    have drawn : { store with sequence := store.sequence.advance }.Lodges directory toml place
      count := lodges.of_eq rfl rfl
    refine drawn.commit found (lawfulAlong_arrival (lodges.lodged found).sound stored _ message) ?_
    intro change member
    rcases List.mem_append.mp member with old | new
    · rw [Option.toList_map] at old
      obtain ⟨key, gone, rfl⟩ := List.mem_map.mp old
      obtain ⟨entry, there⟩ := stored key (Option.mem_toList.mp gone)
      exact lodges.routed found there
    · rw [List.mem_singleton.mp new]
      exact its
  have enqueues := enqueues_enqueue store queue message evicted index bucket
  generalize store.enqueue queue message evicted index bucket = served at enqueues ⊢
  cases enqueues with
  | fails failed =>
    rw [failed] at arrived
    exact arrived
  | @arrives after last done room =>
    rw [done] at arrived
    have yields : last.Lodges directory toml place count := by
      obtain ⟨stats, outbox, same⟩ := yielded_eq after queue
        (evicted.bind fun old => (bucket.entries.get? old).bind Entry.message?)
      rw [room, same]
      exact arrived.of_eq rfl rfl
    dsimp only
    split
    · exact yields.evictQos0 _
    · exact yields

theorem addPublish (its : bucketIndex queue.id count = index) (message : Publish) (limit : Nat)
    (policy : DiscardPolicy) :
    (store.addPublish queue message limit policy index).2.Lodges directory toml place count := by
  have adds := adds_addPublish store queue message limit policy index
  generalize store.addPublish queue message limit policy index = served at adds ⊢
  cases adds with
  | refused | turnedAway => exact lodges.of_eq rfl rfl
  | accepted opened =>
    exact lodges.enqueue (getElem?_of_bucket opened) its message (by rintro key ⟨⟩)
  | evicting opened _ oldest =>
    refine lodges.enqueue (getElem?_of_bucket opened) its message ?_
    rintro key ⟨⟩
    obtain ⟨entry, stored, _⟩ := isNew_of_oldestEvictable? oldest
    exact ⟨entry, stored⟩

theorem enqueuePubrel (found : store.buckets[index]? = some bucket)
    (its : bucketIndex queue.id count = index) {id : UInt16}
    (free : bucket.inFlightKey? queue id = none) :
    (store.enqueuePubrel queue id index bucket).2.Lodges directory toml place count := by
  have lodged := lodges.lodged found
  rw [Bucket.inFlightKey?_eq, Option.map_eq_none_iff] at free
  have drawn : { store with sequence := store.sequence.advance }.Lodges directory toml place
    count := lodges.of_eq rfl rfl
  refine drawn.commit found (lawfulAlong_pubrel lodged.sound
    (lodged.agrees.not_carries_of_holder?_eq_none free)) fun change member => ?_
  rw [List.mem_singleton.mp member]
  exact its

theorem addPubrel (its : bucketIndex queue.id count = index) (id : UInt16) :
    (store.addPubrel queue id index).2.Lodges directory toml place count := by
  have adds := adds_addPubrel store queue id index
  generalize store.addPubrel queue id index = served at adds ⊢
  cases adds with
  | refused | known => exact lodges
  | fresh opened free => exact lodges.enqueuePubrel (getElem?_of_bucket opened) its free

/-! Settling and reading -/

theorem replace {id : String} (its : bucketIndex (QueueKey.mk id false).id count = index)
    (packetId : UInt16) :
    (store.replace id packetId index).2.Lodges directory toml place count := by
  have replaces := replaces_replace store id packetId index
  generalize store.replace id packetId index = served at replaces ⊢
  cases replaces with
  | refused | known => exact lodges
  | fresh opened free =>
    have joined := lodges.enqueuePubrel (getElem?_of_bucket opened) its free
    exact joined
  | releases opened held there =>
    have found := getElem?_of_bucket opened
    obtain ⟨entry, here, carries⟩ := carries_of_inFlightKey? (lodges.lodged found).agrees held
    cases there.symm.trans here
    exact lodges.edit found ⟨.release there carries, trivial⟩

theorem remove (id : String) (packetId : UInt16) (expected : Option String) (index : Nat) :
    (store.remove id packetId expected index).2.Lodges directory toml place count := by
  have removes := removes_remove store id packetId expected index
  generalize store.remove id packetId expected index = served at removes ⊢
  cases removes with
  | refused | unknown | unexpected => exact lodges
  | removes opened held =>
    have found := getElem?_of_bucket opened
    obtain ⟨entry, stored, _⟩ := carries_of_inFlightKey? (lodges.lodged found).agrees held
    exact lodges.delete found stored

theorem changeFirst {fits : Entry → Bool} {change : EntryKey → Change}
    (edits : ∀ bucket : Bucket, ∀ key entry, bucket.entries.get? key = some entry →
      key.queue = queue → fits entry = true → Edit bucket.entries (change key)) (index : Nat) :
    (store.changeFirst queue fits change index).2.Lodges directory toml place count := by
  have changes := changes_changeFirst store queue fits change index
  generalize store.changeFirst queue fits change index = served at changes ⊢
  cases changes with
  | refused | missing => exact lodges
  | @changes bucket key entry opened first =>
    obtain ⟨stored, its, suits⟩ := of_find?_queueEntries first
    exact lodges.edit (getElem?_of_bucket opened) ⟨edits bucket key entry stored its suits, trivial⟩

theorem removeShared (id uniqueId : String) (index : Nat) :
    (store.removeShared id uniqueId index).2.Lodges directory toml place count :=
  lodges.changeFirst (fun _ _ _ stored _ _ => .delete stored) index

theorem giveBack (id uniqueId : String) (index : Nat) :
    (store.giveBack id uniqueId index).2.Lodges directory toml place count := by
  refine lodges.changeFirst ?_ index
  intro bucket key entry stored its taken
  cases entry with
  | taken message => exact .giveBack (by rw [its]) stored
  | publish | pubrel => cases taken

theorem deleteEntries (queue : QueueKey) (fits : Entry → Bool) (index : Nat) :
    (store.deleteEntries queue fits index).2.Lodges directory toml place count := by
  have deletes := deletes_deleteEntries store queue fits index
  generalize store.deleteEntries queue fits index = served at deletes ⊢
  cases deletes with
  | refused => exact lodges
  | @deletes bucket opened =>
    exact lodges.edit (getElem?_of_bucket opened) (editsAlong_deletions bucket queue fits)

theorem readNew (queue : QueueKey) (pool : List UInt16) (byteLimit now : UInt64) (index : Nat) :
    (store.readNew queue pool byteLimit now index).2.Lodges directory toml place count := by
  have read {bucket : Bucket} {counts : QueueCounts} (found : store.buckets[index]? = some bucket)
      (counted : bucket.counts? queue = some counts) :
      (store.commit index bucket (reading store.settings.overflow bucket queue counts pool
        byteLimit now).changes).2.Lodges directory toml place count :=
    lodges.edit found
      (editsAlong_reading (lodges.lodged found).agrees counted _ pool byteLimit now)
  have reads := reads_readNew store queue pool byteLimit now index
  generalize store.readNew queue pool byteLimit now index = served at reads ⊢
  cases reads with
  | refused | unknown | panics => exact lodges
  | fails opened counted calm failed =>
    have step := read (getElem?_of_bucket opened) counted
    rw [failed] at step
    exact step
  | hands opened counted calm done =>
    have step := read (getElem?_of_bucket opened) counted
    rw [done] at step
    exact step.of_eq rfl rfl

/-! Upkeep -/

theorem cleanUp (now : UInt64) (index : Nat) :
    (store.cleanUp now index).2.Lodges directory toml place count := by
  have clean {bucket : Bucket} (found : store.buckets[index]? = some bucket) :
      (store.commit index bucket ((staleKeys bucket now).map .delete)).2.Lodges
        directory toml place count := lodges.edit found (editsAlong_staleKeys bucket now)
  have cleans := cleansUp_cleanUp store now index
  generalize store.cleanUp now index = served at cleans ⊢
  cases cleans with
  | refused => exact lodges
  | fails opened failed =>
    have step := clean (getElem?_of_bucket opened)
    rw [failed] at step
    exact step
  | @sweeps bucket swept left opened done there _ =>
    have step := clean (getElem?_of_bucket opened)
    rw [done] at step
    have routed : Table.Routed left.entries count index := step.routed there
    exact (step.set (.refl step.sound step.apart _) (step.lodged there).forgetEmptyQueues
      routed).of_eq rfl rfl
  | @compacts bucket swept left opened done there _ =>
    have step := clean (getElem?_of_bucket opened)
    rw [done] at step
    obtain ⟨aside, lodged, entries⟩ :=
      (step.lodged there).forgetEmptyQueues.compact step.there step.apart
    have routed : Table.Routed (left.forgetEmptyQueues.compact swept.disk).2.1.entries count
        index := by
      rw [entries]
      have routed : Table.Routed left.entries count index := step.routed there
      exact routed
    refine (step.set aside lodged routed).of_eq rfl ?_
    exact Array.setIfInBounds_setIfInBounds ..

theorem close : store.close.2.Lodges directory toml place count := by
  have closes := closes_close store
  generalize store.close = served at closes ⊢
  cases closes with
  | again => exact lodges
  | flushes =>
    have flushed {index : Nat} {bucket : Bucket} (there : (store.buckets.toList.map fun bucket =>
        (flush bucket store.disk store.settings.closeRetries).2.1).toArray[index]? = some bucket) :
        ∃ old, store.buckets[index]? = some old ∧
          bucket = (flush old store.disk store.settings.closeRetries).2.1 := by
      rw [List.getElem?_toArray, List.getElem?_map, Array.getElem?_toList] at there
      obtain ⟨old, found, rfl⟩ := Option.map_eq_some_iff.mp there
      exact ⟨old, found, rfl⟩
    rw [flushAll_eq]
    refine ⟨lodges.sound, lodges.apart, lodges.there, lodges.records, ?_, ?_, ?_⟩
    · simp [lodges.size]
    · intro index bucket there
      obtain ⟨old, found, rfl⟩ := flushed there
      exact ((lodges.lodged found).flush store.settings.closeRetries).2
    · intro index bucket there
      obtain ⟨old, found, rfl⟩ := flushed there
      have tended : old.Tended 0 _ := tended_flush old store.disk store.settings.closeRetries
      rw [tended.entries]
      exact lodges.routed found

/-- Whatever is asked at the bucket of its queue. -/
theorem serve {request : Request}
    (its : ∀ queue ∈ request.queue?, bucketIndex queue.id count = request.index) :
    (store.serve request).2.Lodges directory toml place count := by
  cases request with
  | add queue message limit policy index =>
    have its := its queue rfl
    cases message with
    | publish message => exact lodges.addPublish its message limit policy
    | pubrel id => exact lodges.addPubrel its id
  | readNew queue pool byteLimit now index => exact lodges.readNew queue pool byteLimit now index
  | readInFlight | size => exact lodges
  | replace id packetId index => exact lodges.replace (its ⟨id, false⟩ rfl) packetId
  | remove id packetId expected index => exact lodges.remove id packetId expected index
  | removeShared id uniqueId index => exact lodges.removeShared id uniqueId index
  | giveBack id uniqueId index => exact lodges.giveBack id uniqueId index
  | removeQos0 queue index =>
    exact lodges.deleteEntries queue (fun entry => entry.messageClass = .qos0) index
  | clear queue index => exact lodges.deleteEntries queue (fun _ => true) index
  | cleanUp now index => exact lodges.cleanUp now index
  | close => exact lodges.close

end Lodges

end Store

end DeliveryQueue
