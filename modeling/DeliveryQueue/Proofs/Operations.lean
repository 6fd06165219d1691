import DeliveryQueue.Store.Add
import DeliveryQueue.Store.Read
import DeliveryQueue.Store.Settle
import DeliveryQueue.Store.Upkeep

/-!
What the operations on a queue can do, case by case. An operation is refused, finds nothing to do,
or commits changes to the bucket. Each operation is opened here once; invariants are shown by going
through these cases.
-/
namespace DeliveryQueue.Store

variable {store : Store} {index : Nat} {bucket : Bucket} {queue : QueueKey}

theorem getElem?_of_bucket (open_ : store.bucket index = .ok bucket) :
    store.buckets[index]? = some bucket := by
  unfold Store.bucket at open_
  split at open_
  · cases open_
  · split at open_
    · rename_i found
      cases open_
      exact found
    · cases open_

/-- A bucket of an open store that can be looked at. -/
theorem exists_bucket {P : Bucket → Bool} (fine : (store.bucket index).toOption.any P = true) :
    ∃ bucket, store.bucket index = .ok bucket ∧ P bucket = true := by
  cases opened : store.bucket index with
  | error fault =>
    rw [opened] at fine
    cases fine
  | ok bucket =>
    rw [opened] at fine
    exact ⟨bucket, rfl, fine⟩

theorem getElem?_set_self (found : store.buckets[index]? = some bucket) (new : Bucket) :
    (store.buckets.setIfInBounds index new)[index]? = some new :=
  Array.getElem?_setIfInBounds_self_of_lt (Array.getElem?_eq_some_iff.mp found).1

theorem size_commit (store : Store) (index : Nat) (bucket : Bucket) (changes : List Change) :
    (store.commit index bucket changes).2.buckets.size = store.buckets.size := by
  unfold commit
  dsimp only
  split <;> exact Array.size_setIfInBounds

theorem mem_queueEntries {key : EntryKey} {entry : Entry} :
    (key, entry) ∈ bucket.queueEntries queue ↔
      bucket.entries.get? key = some entry ∧ key.queue = queue := by
  simp [Bucket.queueEntries, Table.mem_bindings_iff]

theorem nodup_queueEntries (bucket : Bucket) (queue : QueueKey) :
    ((bucket.queueEntries queue).map Prod.fst).Nodup :=
  bucket.entries.nodup_keys.sublist (List.filter_sublist.map Prod.fst)

/-- Settings have no part in a commit. -/
theorem commit_settings (store : Store) (settings : Settings) (index : Nat) (bucket : Bucket)
    (changes : List Change) : { store with settings }.commit index bucket changes =
      ((store.commit index bucket changes).1,
        { (store.commit index bucket changes).2 with settings }) := by
  unfold commit
  dsimp only
  split <;> rfl

/-! Adding -/

/-- What is committed for a message that is put at the end of a queue. -/
def arrival (evicted : Option EntryKey) (key : EntryKey) (message : Publish) : List Change :=
  (evicted.map Change.delete).toList ++ [.insert key (.publish (.ofPublish message))]

/-- The store after a message gave way, if one did. -/
def yielded (store : Store) (queue : QueueKey) : Option StoredPublish → Store
  | none => store
  | some old => store.discard queue.id old.topic old.qos

inductive Enqueues (store : Store) (queue : QueueKey) (message : Publish)
    (evicted : Option EntryKey) (index : Nat) (bucket : Bucket) :
    Except QueueFault Unit × Store → Prop
  | fails {fault : QueueFault} {after : Store}
      (failed : { store with sequence := store.sequence.advance }.commit index bucket
        (arrival evicted ⟨queue, store.sequence.next⟩ message) = (.error fault, after)) :
      Enqueues store queue message evicted index bucket (.error fault, after)
  | arrives {after last : Store}
      (done : { store with sequence := store.sequence.advance }.commit index bucket
        (arrival evicted ⟨queue, store.sequence.next⟩ message) = (.ok (), after))
      (room : last = after.yielded queue
        (evicted.bind fun old => (bucket.entries.get? old).bind Entry.message?)) :
      Enqueues store queue message evicted index bucket
        (.ok (), if message.qos = .atMostOnce then last.enforceBudget else last)

theorem enqueues_enqueue (store : Store) (queue : QueueKey) (message : Publish)
    (evicted : Option EntryKey) (index : Nat) (bucket : Bucket) :
    Enqueues store queue message evicted index bucket
      (store.enqueue queue message evicted index bucket) := by
  unfold enqueue
  dsimp only
  rw [← arrival]
  cases committed : { store with sequence := store.sequence.advance }.commit index bucket
    (arrival evicted ⟨queue, store.sequence.next⟩ message) with
  | mk answer after =>
    cases answer with
    | error fault => exact .fails committed
    | ok =>
      refine .arrives committed ?_
      cases evicted.bind fun old => (bucket.entries.get? old).bind Entry.message? with
      | none | some => rfl

inductive Adds (store : Store) (queue : QueueKey) (message : Publish) (limit : Nat)
    (policy : DiscardPolicy) (index : Nat) : Except QueueFault Unit × Store → Prop
  | refused {fault : QueueFault} (closed : store.bucket index = .error fault) :
      Adds store queue message limit policy index (.error fault, store.release message.payload)
  | accepted {bucket : Bucket} (opened : store.bucket index = .ok bucket)
      (room : Admission.decide (bucket.classSize queue (.of message.qos)) limit policy = .accept) :
      Adds store queue message limit policy index (store.enqueue queue message none index bucket)
  | evicting {bucket : Bucket} {old : EntryKey} (opened : store.bucket index = .ok bucket)
      (full : Admission.decide (bucket.classSize queue (.of message.qos)) limit policy =
        .evictOldest)
      (oldest : bucket.oldestEvictable? queue (.of message.qos) = some old) :
      Adds store queue message limit policy index
        (store.enqueue queue message (some old) index bucket)
  | turnedAway {bucket : Bucket} (opened : store.bucket index = .ok bucket)
      (full : Admission.decide (bucket.classSize queue (.of message.qos)) limit policy =
          .dropIncoming ∨
        Admission.decide (bucket.classSize queue (.of message.qos)) limit policy =
            .evictOldest ∧ bucket.oldestEvictable? queue (.of message.qos) = none) :
      Adds store queue message limit policy index (.ok (), store.turnAway queue message)

theorem adds_addPublish (store : Store) (queue : QueueKey) (message : Publish) (limit : Nat)
    (policy : DiscardPolicy) (index : Nat) :
    Adds store queue message limit policy index
      (store.addPublish queue message limit policy index) := by
  unfold addPublish
  cases opened : store.bucket index with
  | error fault => exact .refused opened
  | ok bucket =>
    dsimp only
    cases decided : Admission.decide (bucket.classSize queue (.of message.qos)) limit policy with
    | accept => exact .accepted opened decided
    | dropIncoming => exact .turnedAway opened (.inl decided)
    | evictOldest =>
      dsimp only
      cases oldest : bucket.oldestEvictable? queue (.of message.qos) with
      | none => exact .turnedAway opened (.inr ⟨decided, oldest⟩)
      | some old => exact .evicting opened decided oldest

/-- Only what waits in the queue and is of the class is evicted. -/
theorem of_oldestEvictable? {messageClass : MessageClass} {key : EntryKey}
    (oldest : bucket.oldestEvictable? queue messageClass = some key) :
    key.queue = queue ∧ ∃ entry, bucket.entries.get? key = some entry ∧ entry.isNew = true ∧
      entry.messageClass = messageClass := by
  obtain ⟨e, first, rfl⟩ := Option.map_eq_some_iff.mp oldest
  obtain ⟨stored, its⟩ := mem_queueEntries.mp (List.mem_of_find?_eq_some first)
  have fits := List.find?_some first
  rw [Bool.and_eq_true] at fits
  exact ⟨its, e.2, stored, fits.1, of_decide_eq_true fits.2⟩

theorem isNew_of_oldestEvictable? {messageClass : MessageClass} {key : EntryKey}
    (oldest : bucket.oldestEvictable? queue messageClass = some key) :
    ∃ entry, bucket.entries.get? key = some entry ∧ entry.isNew = true := by
  obtain ⟨_, entry, stored, isNew, _⟩ := of_oldestEvictable? oldest
  exact ⟨entry, stored, isNew⟩

inductive AddsPubrel (store : Store) (queue : QueueKey) (packetId : UInt16) (index : Nat) :
    Except QueueFault Unit × Store → Prop
  | refused {fault : QueueFault} (closed : store.bucket index = .error fault) :
      AddsPubrel store queue packetId index (.error fault, store)
  | known {bucket : Bucket} {key : EntryKey} (opened : store.bucket index = .ok bucket)
      (held : bucket.inFlightKey? queue packetId = some key) :
      AddsPubrel store queue packetId index (.ok (), store)
  | fresh {bucket : Bucket} (opened : store.bucket index = .ok bucket)
      (free : bucket.inFlightKey? queue packetId = none) :
      AddsPubrel store queue packetId index (store.enqueuePubrel queue packetId index bucket)

theorem adds_addPubrel (store : Store) (queue : QueueKey) (packetId : UInt16) (index : Nat) :
    AddsPubrel store queue packetId index (store.addPubrel queue packetId index) := by
  unfold addPubrel
  cases opened : store.bucket index with
  | error fault => exact .refused opened
  | ok bucket =>
    dsimp only
    cases held : bucket.inFlightKey? queue packetId with
    | none => exact .fresh opened held
    | some key => exact .known opened held

/-! Reading -/

/-- What a reading hands out of a bucket that counts the queue. -/
def reading (overflow : Overflow) (bucket : Bucket) (queue : QueueKey) (counts : QueueCounts)
    (pool : List UInt16) (byteLimit now : UInt64) : Delivery :=
  deliver queue.shared now ⟨pool.length, counts.packetIds.free pool, none, byteLimit, overflow⟩
    (bucket.queueEntries queue)

inductive Reads (store : Store) (queue : QueueKey) (pool : List UInt16) (byteLimit now : UInt64)
    (index : Nat) : Except QueueFault (List Publish) × Store → Prop
  | refused {fault : QueueFault} (closed : store.bucket index = .error fault) :
      Reads store queue pool byteLimit now index (.error fault, store)
  | unknown {bucket : Bucket} (opened : store.bucket index = .ok bucket)
      (uncounted : bucket.counts? queue = none) :
      Reads store queue pool byteLimit now index (.ok [], store)
  | panics {bucket : Bucket} {counts : QueueCounts}
      (opened : store.bucket index = .ok bucket) (counted : bucket.counts? queue = some counts)
      (overflows : (reading store.settings.overflow bucket queue counts pool byteLimit now).panics =
        true) :
      Reads store queue pool byteLimit now index (.error .panicked, store)
  | fails {bucket : Bucket} {counts : QueueCounts} {fault : QueueFault} {after : Store}
      (opened : store.bucket index = .ok bucket) (counted : bucket.counts? queue = some counts)
      (calm : (reading store.settings.overflow bucket queue counts pool byteLimit now).panics =
        false)
      (failed : store.commit index bucket
        (reading store.settings.overflow bucket queue counts pool byteLimit now).changes =
          (.error fault, after)) :
      Reads store queue pool byteLimit now index (.error fault, after)
  | hands {bucket : Bucket} {counts : QueueCounts} {after : Store}
      (opened : store.bucket index = .ok bucket) (counted : bucket.counts? queue = some counts)
      (calm : (reading store.settings.overflow bucket queue counts pool byteLimit now).panics =
        false)
      (done : store.commit index bucket
        (reading store.settings.overflow bucket queue counts pool byteLimit now).changes =
          (.ok (), after)) :
      Reads store queue pool byteLimit now index
        (.ok (reading store.settings.overflow bucket queue counts pool byteLimit now).messages,
          { after with
            stats.expired := after.stats.expired + .ofNat
              (reading store.settings.overflow bucket queue counts pool byteLimit now).expired })

theorem reads_readNew (store : Store) (queue : QueueKey) (pool : List UInt16)
    (byteLimit now : UInt64) (index : Nat) :
    Reads store queue pool byteLimit now index
      (store.readNew queue pool byteLimit now index) := by
  unfold readNew
  cases opened : store.bucket index with
  | error fault => exact .refused opened
  | ok bucket =>
    dsimp only
    cases counted : bucket.counts? queue with
    | none => exact .unknown opened counted
    | some counts =>
      dsimp only
      rw [← reading]
      split
      · rename_i overflows
        exact .panics opened counted overflows
      · rename_i calm
        rw [Bool.not_eq_true] at calm
        cases committed : store.commit index bucket
          (reading store.settings.overflow bucket queue counts pool byteLimit now).changes with
        | mk answer after =>
          cases answer with
          | error fault => exact .fails opened counted calm committed
          | ok => exact .hands opened counted calm committed

/-! Settling -/

inductive Replaces (store : Store) (id : String) (packetId : UInt16) (index : Nat) :
    Except QueueFault (Option String) × Store → Prop
  | refused {fault : QueueFault} (closed : store.bucket index = .error fault) :
      Replaces store id packetId index (.error fault, store)
  | fresh {bucket : Bucket} (opened : store.bucket index = .ok bucket)
      (free : bucket.inFlightKey? ⟨id, false⟩ packetId = none) :
      Replaces store id packetId index
        ((store.enqueuePubrel ⟨id, false⟩ packetId index bucket).1.map fun () => none,
          (store.enqueuePubrel ⟨id, false⟩ packetId index bucket).2)
  | known {bucket : Bucket} {key : EntryKey} (opened : store.bucket index = .ok bucket)
      (held : bucket.inFlightKey? ⟨id, false⟩ packetId = some key)
      (other : ∀ stored, bucket.entries.get? key ≠ some (.publish stored)) :
      Replaces store id packetId index (.ok none, store)
  | releases {bucket : Bucket} {key : EntryKey} {stored : StoredPublish}
      (opened : store.bucket index = .ok bucket)
      (held : bucket.inFlightKey? ⟨id, false⟩ packetId = some key)
      (there : bucket.entries.get? key = some (.publish stored)) :
      Replaces store id packetId index
        ((store.commit index bucket [.release key packetId]).1.map fun () => some stored.uniqueId,
          (store.commit index bucket [.release key packetId]).2)

theorem replaces_replace (store : Store) (id : String) (packetId : UInt16) (index : Nat) :
    Replaces store id packetId index (store.replace id packetId index) := by
  unfold replace
  cases opened : store.bucket index with
  | error fault => exact .refused opened
  | ok bucket =>
    dsimp only
    cases held : bucket.inFlightKey? ⟨id, false⟩ packetId with
    | none => exact .fresh opened held
    | some key =>
      dsimp only
      split
      · rename_i stored there
        exact .releases opened held there
      · rename_i other
        exact .known opened held other

inductive Removes (store : Store) (id : String) (packetId : UInt16) (expected : Option String)
    (index : Nat) : Except QueueFault (Option String) × Store → Prop
  | refused {fault : QueueFault} (closed : store.bucket index = .error fault) :
      Removes store id packetId expected index (.error fault, store)
  | unknown {bucket : Bucket} (opened : store.bucket index = .ok bucket)
      (free : bucket.inFlightKey? ⟨id, false⟩ packetId = none) :
      Removes store id packetId expected index (.ok none, store)
  | unexpected {bucket : Bucket} {key : EntryKey} (opened : store.bucket index = .ok bucket)
      (held : bucket.inFlightKey? ⟨id, false⟩ packetId = some key)
      (other : expected.isSome ∧ (bucket.entries.get? key).bind Entry.uniqueId? ≠ expected) :
      Removes store id packetId expected index (.ok none, store)
  | removes {bucket : Bucket} {key : EntryKey} (opened : store.bucket index = .ok bucket)
      (held : bucket.inFlightKey? ⟨id, false⟩ packetId = some key)
      (wanted : ¬ (expected.isSome ∧ (bucket.entries.get? key).bind Entry.uniqueId? ≠ expected)) :
      Removes store id packetId expected index
        ((store.commit index bucket [.delete key]).1.map
            fun () => (bucket.entries.get? key).bind Entry.uniqueId?,
          (store.commit index bucket [.delete key]).2)

theorem removes_remove (store : Store) (id : String) (packetId : UInt16)
    (expected : Option String) (index : Nat) :
    Removes store id packetId expected index (store.remove id packetId expected index) := by
  unfold remove
  cases opened : store.bucket index with
  | error fault => exact .refused opened
  | ok bucket =>
    dsimp only
    cases held : bucket.inFlightKey? ⟨id, false⟩ packetId with
    | none => exact .unknown opened held
    | some key =>
      dsimp only
      split
      · rename_i other
        exact .unexpected opened held other
      · rename_i wanted
        exact .removes opened held wanted

inductive ChangesFirst (store : Store) (queue : QueueKey) (fits : Entry → Bool)
    (change : EntryKey → Change) (index : Nat) : Except QueueFault Bool × Store → Prop
  | refused {fault : QueueFault} (closed : store.bucket index = .error fault) :
      ChangesFirst store queue fits change index (.error fault, store)
  | missing {bucket : Bucket} (opened : store.bucket index = .ok bucket)
      (unfit : ∀ e ∈ bucket.queueEntries queue, fits e.2 = false) :
      ChangesFirst store queue fits change index (.ok false, store)
  | changes {bucket : Bucket} {key : EntryKey} {entry : Entry}
      (opened : store.bucket index = .ok bucket)
      (first : ((bucket.queueEntries queue).find? fun e => fits e.2) = some (key, entry)) :
      ChangesFirst store queue fits change index
        ((store.commit index bucket [change key]).1.map fun () => true,
          (store.commit index bucket [change key]).2)

theorem changes_changeFirst (store : Store) (queue : QueueKey) (fits : Entry → Bool)
    (change : EntryKey → Change) (index : Nat) :
    ChangesFirst store queue fits change index (store.changeFirst queue fits change index) := by
  unfold changeFirst
  cases opened : store.bucket index with
  | error fault => exact .refused opened
  | ok bucket =>
    dsimp only
    cases first : (bucket.queueEntries queue).find? fun e => fits e.2 with
    | none => exact .missing opened (by simpa using List.find?_eq_none.mp first)
    | some e => exact .changes opened first

/-- The first entry that fits is stored in its queue. -/
theorem of_find?_queueEntries {fits : Entry → Bool} {key : EntryKey} {entry : Entry}
    (first : ((bucket.queueEntries queue).find? fun e => fits e.2) = some (key, entry)) :
    bucket.entries.get? key = some entry ∧ key.queue = queue ∧ fits entry = true := by
  obtain ⟨stored, its⟩ := mem_queueEntries.mp (List.mem_of_find?_eq_some first)
  have suits := List.find?_some first
  exact ⟨stored, its, suits⟩

/-! Emptying -/

/-- What is committed to delete the entries of a queue that fit. -/
def deletions (bucket : Bucket) (queue : QueueKey) (fits : Entry → Bool) : List Change :=
  ((bucket.queueEntries queue).filter fun e => fits e.2).map fun e => .delete e.1

inductive DeletesEntries (store : Store) (queue : QueueKey) (fits : Entry → Bool) (index : Nat) :
    Except QueueFault Unit × Store → Prop
  | refused {fault : QueueFault} (closed : store.bucket index = .error fault) :
      DeletesEntries store queue fits index (.error fault, store)
  | deletes {bucket : Bucket} (opened : store.bucket index = .ok bucket) :
      DeletesEntries store queue fits index
        (store.commit index bucket (deletions bucket queue fits))

theorem deletes_deleteEntries (store : Store) (queue : QueueKey) (fits : Entry → Bool)
    (index : Nat) :
    DeletesEntries store queue fits index (store.deleteEntries queue fits index) := by
  unfold deleteEntries
  cases opened : store.bucket index with
  | error fault => exact .refused opened
  | ok bucket => exact .deletes opened

theorem mem_deletions {fits : Entry → Bool} {change : Change} :
    change ∈ deletions bucket queue fits ↔
      ∃ key entry, change = .delete key ∧ bucket.entries.get? key = some entry ∧
        key.queue = queue ∧ fits entry = true := by
  constructor
  · intro member
    obtain ⟨e, kept, rfl⟩ := List.mem_map.mp member
    obtain ⟨listed, suits⟩ := List.mem_filter.mp kept
    obtain ⟨stored, its⟩ := mem_queueEntries.mp listed
    exact ⟨e.1, e.2, rfl, stored, its, suits⟩
  · rintro ⟨key, entry, rfl, stored, its, suits⟩
    have listed := mem_queueEntries.mpr ⟨stored, its⟩
    exact List.mem_map.mpr ⟨(key, entry), List.mem_filter.mpr ⟨listed, suits⟩, rfl⟩

theorem nodup_deletions (bucket : Bucket) (queue : QueueKey) (fits : Entry → Bool) :
    ((deletions bucket queue fits).map Change.key).Nodup := by
  rw [deletions, List.map_map]
  exact (nodup_queueEntries bucket queue).sublist (List.filter_sublist.map Prod.fst)

/-! Upkeep -/

/-- The store after a bucket was swept: its empty queues are forgotten, and what went is counted. -/
def cleaned (swept : Store) (index : Nat) (left : Bucket) (count : Nat) : Store :=
  { swept with
    buckets := swept.buckets.setIfInBounds index left.forgetEmptyQueues
    stats.expired := swept.stats.expired + .ofNat count }

inductive CleansUp (store : Store) (now : UInt64) (index : Nat) :
    Except QueueFault (List String) × Store → Prop
  | refused {fault : QueueFault} (closed : store.bucket index = .error fault) :
      CleansUp store now index (.error fault, store)
  | fails {bucket : Bucket} {fault : QueueFault} {after : Store}
      (opened : store.bucket index = .ok bucket)
      (failed : store.commit index bucket ((staleKeys bucket now).map .delete) =
        (.error fault, after)) :
      CleansUp store now index (.error fault, after)
  | sweeps {bucket : Bucket} {swept : Store} {left : Bucket}
      (opened : store.bucket index = .ok bucket)
      (done : store.commit index bucket ((staleKeys bucket now).map .delete) = (.ok (), swept))
      (there : swept.buckets[index]? = some left)
      (short : ¬ swept.settings.compactionThreshold < left.forgetEmptyQueues.journalRecords) :
      CleansUp store now index (.ok (sharedIds left.forgetEmptyQueues),
        swept.cleaned index left (staleKeys bucket now).length)
  | compacts {bucket : Bucket} {swept : Store} {left : Bucket}
      (opened : store.bucket index = .ok bucket)
      (done : store.commit index bucket ((staleKeys bucket now).map .delete) = (.ok (), swept))
      (there : swept.buckets[index]? = some left)
      (long : swept.settings.compactionThreshold < left.forgetEmptyQueues.journalRecords) :
      CleansUp store now index
        (match (left.forgetEmptyQueues.compact swept.disk).1 with
          | .error fault => .error (.storage fault)
          | .ok () => .ok (sharedIds (left.forgetEmptyQueues.compact swept.disk).2.1),
          { swept.cleaned index left (staleKeys bucket now).length with
            buckets := (swept.buckets.setIfInBounds index left.forgetEmptyQueues).setIfInBounds
              index (left.forgetEmptyQueues.compact swept.disk).2.1
            disk := (left.forgetEmptyQueues.compact swept.disk).2.2 })

theorem cleansUp_cleanUp (store : Store) (now : UInt64) (index : Nat) :
    CleansUp store now index (store.cleanUp now index) := by
  unfold cleanUp
  cases opened : store.bucket index with
  | error fault => exact .refused opened
  | ok bucket =>
    dsimp only
    cases committed : store.commit index bucket ((staleKeys bucket now).map .delete) with
    | mk answer swept =>
      cases answer with
      | error fault => exact .fails opened committed
      | ok =>
        -- the bucket is still there
        have inside : index < swept.buckets.size := by
          have size := size_commit store index bucket ((staleKeys bucket now).map .delete)
          rw [committed] at size
          rw [size]
          exact (Array.getElem?_eq_some_iff.mp (getElem?_of_bucket opened)).1
        have there := Array.getElem?_eq_getElem inside
        dsimp only
        rw [there]
        dsimp only
        split
        · rename_i long
          exact .compacts opened committed there long
        · rename_i short
          exact .sweeps opened committed there short

inductive Closes (store : Store) : Except QueueFault Unit × Store → Prop
  | again (closed : store.closed = true) : Closes store (.ok (), store)
  | flushes (running : store.closed = false) :
      Closes store
        ((flushAll store.settings.closeRetries store.disk store.buckets.toList).1.mapError .storage,
          { store with
            closed := true
            buckets :=
              (flushAll store.settings.closeRetries store.disk store.buckets.toList).2.1.toArray
            disk := (flushAll store.settings.closeRetries store.disk store.buckets.toList).2.2 })

theorem closes_close (store : Store) : Closes store store.close := by
  unfold close
  split
  · rename_i closed
    exact .again closed
  · rename_i running
    exact .flushes (by simpa using running)

end DeliveryQueue.Store
