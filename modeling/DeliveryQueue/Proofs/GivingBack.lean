import DeliveryQueue.Proofs.Acknowledging
import DeliveryQueue.Proofs.Depth
import DeliveryQueue.Proofs.Expiry
import DeliveryQueue.Proofs.Reading

/-!
Giving back what a reading of a shared queue has handed out (`Store.giveBack_undoes_readNew`). The
messages are named by their unique ids, in any order, and each goes back to where it waited. Once
all are back the bucket holds what it held before the reading, the messages of QoS 0 and those that
expired aside.
-/
namespace DeliveryQueue

/-! Journals that do not fail -/

namespace Journal

/-- A journal that may grow without end. -/
def Endless : Journal → Prop
  | memory log => log.capacity = none
  | file _ => True

instance : DecidablePred Endless
  | memory log => inferInstanceAs (Decidable (log.capacity = none))
  | file _ => inferInstanceAs (Decidable True)

/-- A journal in memory that takes every batch. -/
def Taking : Journal → Prop
  | memory log => log.capacity = none ∧ log.failAppends = false
  | file _ => False

variable {journal : Journal} {disk : Disk} {batch : Bytes}

theorem Taking.append (taking : journal.Taking) (disk : Disk) (batch : Bytes) :
    (journal.append disk batch).answer = .ok () ∧ (journal.append disk batch).journal.Taking := by
  cases journal with
  | file log => exact taking.elim
  | memory log =>
    obtain ⟨endless, works⟩ := taking
    have room : (log.failAppends || log.isFull) = false := by
      simp [MemoryJournal.isFull, endless, works]
    simp only [Journal.append, MemoryJournal.append, room]
    exact ⟨rfl, endless, works⟩

/-- A journal without end that took a batch takes the others as well. -/
theorem Endless.taking (endless : journal.Endless) {batches : List Bytes}
    (held : journal.held? = some batches)
    (taken : (journal.append disk batch).answer = .ok ()) : journal.Taking := by
  cases journal with
  | file log => cases held
  | memory log =>
    refine ⟨endless, ?_⟩
    by_contra fails
    have refuses : log.failAppends = true := by simpa using fails
    simp [Journal.append, MemoryJournal.append, refuses] at taken

end Journal

namespace Bucket

variable {bucket : Bucket} {changes : List Change}

theorem taking_written (taking : bucket.journal.Taking) (changes : List Change) :
    (bucket.written changes).Taking := by
  unfold written
  split
  · exact taking
  · exact (taking.append .empty _).2

theorem taking_of_busy (endless : bucket.journal.Endless) {batches : List Bytes}
    (held : bucket.journal.held? = some batches) (taken : bucket.refusal? changes = none)
    (busy : changes ≠ []) : bucket.journal.Taking := by
  unfold refusal? at taken
  rw [if_neg (by simpa using busy)] at taken
  cases encoded : Batch.encode changes with
  | error fault =>
    rw [encoded] at taken
    cases taken
  | ok batch =>
    rw [encoded] at taken
    dsimp only at taken
    cases answer : (bucket.journal.append .empty batch).answer with
    | error fault =>
      rw [answer] at taken
      cases taken
    | ok => exact endless.taking held answer

end Bucket

/-! Entries under unique ids -/

/-- No two messages of a queue have one unique id. -/
def Table.Distinct (entries : Entries) (queue : QueueKey) : Prop :=
  ∀ ⦃key entry other another name⦄, entries.get? key = some entry → key.queue = queue →
    entry.uniqueId? = some name → entries.get? other = some another → other.queue = queue →
    another.uniqueId? = some name → key = other

namespace Table.Distinct

variable {first second : Entries} {queue : QueueKey}

theorem of_nodup {bucket : Bucket}
    (single : ((bucket.queueEntries queue).filterMap fun e => e.2.uniqueId?).Nodup) :
    Distinct bucket.entries queue := by
  intro key entry other another name there its named thereToo itsToo namedToo
  have apart := List.pairwise_filterMap.mp single
  have symmetric : Std.Symm fun a b : EntryKey × Entry => ∀ name, a.2.uniqueId? = some name →
      ∀ other, b.2.uniqueId? = some other → name ≠ other :=
    ⟨fun _ _ apart name its other itsToo same => apart other itsToo name its same.symm⟩
  by_contra differs
  have pair : (key, entry) ≠ (other, another) := fun same => differs (congrArg Prod.fst same)
  exact apart.forall (Store.mem_queueEntries.mpr ⟨there, its⟩)
    (Store.mem_queueEntries.mpr ⟨thereToo, itsToo⟩) pair name named name namedToo rfl

/-- Entries that name no more than others do are as distinct. -/
theorem of_named (distinct : Distinct first queue)
    (named : ∀ ⦃key entry⦄, second.get? key = some entry → key.queue = queue →
      ∃ before, first.get? key = some before ∧ before.uniqueId? = entry.uniqueId?) :
    Distinct second queue := by
  intro key entry other another name there its one thereToo itsToo two
  obtain ⟨before, found, same⟩ := named there its
  obtain ⟨beforeToo, foundToo, sameToo⟩ := named thereToo itsToo
  exact distinct found its (same.trans one) foundToo itsToo (sameToo.trans two)

end Table.Distinct

/-- The entry once messages were given back under these names. -/
def Entry.returned (names : List String) : Entry → Entry
  | .taken stored => if stored.uniqueId ∈ names then .publish stored else .taken stored
  | other => other

namespace Entry

variable {names : List String} {stored : StoredPublish} {entry : Entry}

@[simp] theorem returned_nil (entry : Entry) : entry.returned [] = entry := by
  cases entry <;> simp [returned]

theorem returned_taken (named : stored.uniqueId ∈ names) :
    (taken stored).returned names = publish stored := if_pos named

theorem returned_returned (entry : Entry) (first second : List String) :
    (entry.returned first).returned second = entry.returned (first ++ second) := by
  cases entry with
  | publish | pubrel => rfl
  | taken stored =>
    by_cases named : stored.uniqueId ∈ first
    · rw [returned_taken named, returned_taken (List.mem_append_left _ named)]
      rfl
    · simp [returned, named]

@[simp] theorem uniqueId?_returned (names : List String) (entry : Entry) :
    (entry.returned names).uniqueId? = entry.uniqueId? := by
  cases entry with
  | publish | pubrel => rfl
  | taken stored =>
    rw [returned]
    split <;> rfl

/-- What is taken still was not given back. -/
theorem of_returned_eq_taken (still : entry.returned names = taken stored) :
    stored.uniqueId ∉ names := by
  cases entry with
  | publish | pubrel => cases still
  | taken other =>
    rw [returned] at still
    split at still
    · cases still
    · rename_i unnamed
      cases still
      exact unnamed

theorem returned_of_unnamed (unnamed : ∀ name ∈ names, entry.uniqueId? ≠ some name) :
    entry.returned names = entry := by
  cases entry with
  | publish | pubrel => rfl
  | taken stored => exact if_neg fun member => unnamed _ member rfl

end Entry

namespace Bucket

/-- A message of QoS 1 or 2 of the shared queue of a group is taken. -/
def Lends (bucket : Bucket) (group name : String) : Prop :=
  ∃ sequence stored, bucket.entries.get? ⟨⟨group, true⟩, sequence⟩ = some (.taken stored) ∧
    stored.uniqueId = name ∧ stored.qos ≠ .atMostOnce

/-- What a bucket holds once messages of a group were given back. -/
structure Returned (bucket : Bucket) (group : String) (names : List String) (left : Bucket) :
    Prop where
  entries : ∀ key, left.entries.get? key =
    if key.queue = ⟨group, true⟩ then (bucket.entries.get? key).map (Entry.returned names)
    else bucket.entries.get? key
  counts : ∀ queue messageClass,
    left.classSize queue messageClass = bucket.classSize queue messageClass

namespace Returned

variable {bucket middle left : Bucket} {group name : String} {names others : List String}

theorem refl (bucket : Bucket) (group : String) : bucket.Returned group [] bucket where
  entries key := by
    split
    · cases bucket.entries.get? key <;> simp
    · rfl
  counts _ _ := rfl

theorem trans (first : bucket.Returned group names middle)
    (second : middle.Returned group others left) :
    bucket.Returned group (names ++ others) left where
  entries key := by
    have one := first.entries key
    have two := second.entries key
    split at one
    · rename_i mine
      rw [if_pos mine, one, Option.map_map] at two
      rw [if_pos mine, two]
      congr 1
      funext entry
      exact entry.returned_returned names others
    · rename_i foreign
      rw [if_neg foreign] at two ⊢
      rw [two, one]
  counts queue messageClass :=
    (second.counts queue messageClass).trans (first.counts queue messageClass)

theorem distinct (returned : bucket.Returned group names left)
    (distinct : Table.Distinct bucket.entries ⟨group, true⟩) :
    Table.Distinct left.entries ⟨group, true⟩ := by
  refine distinct.of_named ?_
  intro key entry there mine
  rw [returned.entries, if_pos mine] at there
  obtain ⟨before, found, rfl⟩ := Option.map_eq_some_iff.mp there
  exact ⟨before, found, (before.uniqueId?_returned names).symm⟩

/-- What was not given back is lent still. -/
theorem lends (returned : bucket.Returned group names left) (lends : bucket.Lends group name)
    (unnamed : name ∉ names) : left.Lends group name := by
  obtain ⟨sequence, stored, there, rfl, acknowledged⟩ := lends
  refine ⟨sequence, stored, ?_, rfl, acknowledged⟩
  rw [returned.entries, if_pos rfl, there, Option.map_some, Entry.returned, if_neg unnamed]

/-- What was given back is not taken. -/
theorem missing (returned : bucket.Returned group names left) (named : name ∈ names)
    (sequence : UInt64) (stored : StoredPublish)
    (there : left.entries.get? ⟨⟨group, true⟩, sequence⟩ = some (.taken stored)) :
    stored.uniqueId ≠ name := by
  rw [returned.entries, if_pos rfl] at there
  obtain ⟨before, -, still⟩ := Option.map_eq_some_iff.mp there
  rintro rfl
  exact Entry.of_returned_eq_taken still named

end Returned

end Bucket

namespace Store

/-- Give messages back one after the other. -/
def giveBackEach (store : Store) (group : String) (index : Nat) :
    List String → List (Except QueueFault Bool) × Store
  | [] => ([], store)
  | name :: names =>
    let (answer, store) := store.giveBack group name index
    let (answers, store) := giveBackEach store group index names
    (answer :: answers, store)

variable {store after : Store} {index : Nat} {bucket : Bucket} {group : String}

/-- The journal of a bucket after a commit that was not refused. -/
theorem journal_of_done {changes : List Change} (opened : store.bucket index = .ok bucket)
    (done : store.commit index bucket changes = (.ok (), after)) :
    bucket.refusal? changes = none ∧
      ∃ left, after.bucket index = .ok left ∧ left.journal = bucket.written changes := by
  cases refused : bucket.refusal? changes with
  | some fault =>
    obtain ⟨_, _, -, failed⟩ :=
      Bucket.commit_of_refusal?_eq_some refused store.budget store.disk
    simp [commit, failed] at done
  | none =>
    obtain ⟨disk, committed⟩ := Bucket.commit_of_refusal?_eq_none refused store.budget store.disk
    simp only [commit, committed] at done
    cases done
    refine ⟨rfl, _, bucket_of_set opened rfl rfl, ?_⟩
    exact (Bucket.applyAll_frame _ store.budget changes).2.1

/-- A message that no taken entry carries is not given back. -/
theorem giveBack_of_missing (opened : store.bucket index = .ok bucket) {name : String}
    (missing : ∀ sequence stored,
      bucket.entries.get? ⟨⟨group, true⟩, sequence⟩ = some (.taken stored) →
        stored.uniqueId ≠ name) :
    store.giveBack group name index = (.ok false, store) := by
  have changes := changes_changeFirst store ⟨group, true⟩ (isTaken name) (.mark · false) index
  rw [giveBack]
  generalize store.changeFirst ⟨group, true⟩ (isTaken name) (.mark · false) index = served
    at changes ⊢
  cases changes with
  | refused closed => cases closed.symm.trans opened
  | missing => rfl
  | @changes _ key entry again first =>
    cases again.symm.trans opened
    obtain ⟨there, its, fits⟩ := of_find?_queueEntries first
    obtain ⟨_, sequence⟩ := key
    obtain rfl := its
    cases entry with
    | publish | pubrel => cases fits
    | taken stored => exact absurd (of_decide_eq_true fits) (missing sequence stored there)

section Taken
variable (distinct : Table.Distinct bucket.entries ⟨group, true⟩) {sequence : UInt64}
  {stored : StoredPublish}
  (there : bucket.entries.get? ⟨⟨group, true⟩, sequence⟩ = some (.taken stored))
include distinct there

/-- The taken message with a unique id is the one that is found. -/
theorem giveBack_of_taken (opened : store.bucket index = .ok bucket) :
    store.giveBack group stored.uniqueId index =
      ((store.commit index bucket [.mark ⟨⟨group, true⟩, sequence⟩ false]).1.map fun () => true,
        (store.commit index bucket [.mark ⟨⟨group, true⟩, sequence⟩ false]).2) := by
  have changes := changes_changeFirst store ⟨group, true⟩ (isTaken stored.uniqueId)
    (.mark · false) index
  rw [giveBack]
  generalize store.changeFirst ⟨group, true⟩ (isTaken stored.uniqueId) (.mark · false) index =
    served at changes ⊢
  cases changes with
  | refused closed => cases closed.symm.trans opened
  | missing again unfit =>
    cases again.symm.trans opened
    have fits := unfit _ (mem_queueEntries.mpr ⟨there, rfl⟩)
    simp [isTaken] at fits
  | @changes _ other entry again first =>
    cases again.symm.trans opened
    obtain ⟨thereToo, its, fits⟩ := of_find?_queueEntries first
    cases entry with
    | publish | pubrel => cases fits
    | taken another =>
      have same : another.uniqueId = stored.uniqueId := of_decide_eq_true fits
      obtain rfl := distinct thereToo its (congrArg some same) there rfl rfl
      rfl

theorem returned_of_mark (its : bucket.Kept) {left : Bucket} (kept : left.Kept)
    (entries : left.entries =
      (Change.mark ⟨⟨group, true⟩, sequence⟩ false).act bucket.entries) :
    bucket.Returned group [stored.uniqueId] left := by
  constructor
  · intro other
    rw [entries]
    by_cases here : other = ⟨⟨group, true⟩, sequence⟩
    · have stands := Change.get?_act_self (.mark ⟨⟨group, true⟩, sequence⟩ false) bucket.entries
      rw [Change.key, there] at stands
      rw [here, stands, there, if_pos rfl, Option.map_some,
        Entry.returned_taken (List.mem_singleton.mpr rfl)]
      rfl
    · rw [Change.get?_act_of_ne here]
      split
      · rename_i mine
        cases found : bucket.entries.get? other with
        | none => rfl
        | some entry =>
          rw [Option.map_some, Entry.returned_of_unnamed]
          rintro name member named
          rw [List.mem_singleton.mp member] at named
          exact here (distinct found mine named there rfl rfl)
      · rfl
  · intro queue messageClass
    have trade := Change.count_act bucket.entries (.mark ⟨⟨group, true⟩, sequence⟩ false) queue
      messageClass
    rw [Change.key, there] at trade
    rw [kept.agrees.classSize_eq_count, its.agrees.classSize_eq_count, entries]
    exact Nat.add_right_cancel trade

/-- A taken message is given back to where it waited. -/
theorem exists_givenBack (its : bucket.Kept) (opened : store.bucket index = .ok bucket)
    (taking : bucket.journal.Taking) (fits : Batch.fits group = true)
    (acknowledged : stored.qos ≠ .atMostOnce) :
    ∃ (left : Bucket) (after : Store) (committed : List Change),
      store.giveBack group stored.uniqueId index = (.ok true, after) ∧
      after.bucket index = .ok left ∧ left.Kept ∧ left.journal.Taking ∧
      bucket.Returned group [stored.uniqueId] left ∧
      after = { store with
        buckets := store.buckets.setIfInBounds index left
        outbox.committed := committed } := by
  have weightless : (Entry.publish stored).qos0Bytes? = none :=
    Entry.weightless_of_acknowledged (MessageClass.of_eq_qos12_iff.mpr acknowledged)
  obtain ⟨left, kept, entries, done⟩ := exists_commit_single its opened
    (taking.append store.disk []).1 (.mark ⟨⟨group, true⟩, sequence⟩ false) fits rfl
    ((Edit.giveBack rfl there).lawful its.sound) (by
      intro entry stands
      rw [Change.key, there] at stands
      cases stands
      exact weightless)
  simp only [Change.key, there, Change.displaced, Option.elim, Option.bind_none,
    Option.toList_none, List.append_nil, Entry.weight, Entry.qos0Bytes?, Budget.drain_zero]
    at done
  obtain ⟨_, other, found, written⟩ := journal_of_done opened done
  obtain rfl : other = left := by
    cases found.symm.trans (bucket_of_set opened rfl rfl)
    rfl
  refine ⟨other, _, _, ?_, found, kept, ?_, returned_of_mark distinct there its kept entries, rfl⟩
  · rw [giveBack_of_taken distinct there opened, done]
    rfl
  · rw [written]
    exact Bucket.taking_written taking _

end Taken

/-- Messages that are taken are given back one after the other, each of them once. -/
theorem exists_giveBackEach {names : List String} (its : bucket.Kept)
    (opened : store.bucket index = .ok bucket)
    (able : names ≠ [] → bucket.journal.Taking ∧ Batch.fits group = true)
    (distinct : Table.Distinct bucket.entries ⟨group, true⟩) (single : names.Nodup)
    (lends : ∀ name ∈ names, bucket.Lends group name) :
    ∃ left last committed,
      store.giveBackEach group index names = (names.map fun _ => .ok true, last) ∧
      last.bucket index = .ok left ∧ left.Kept ∧ bucket.Returned group names left ∧
      last = { store with
        buckets := store.buckets.setIfInBounds index left
        outbox.committed := committed } := by
  induction names generalizing store bucket with
  | nil =>
    refine ⟨bucket, store, store.outbox.committed, rfl, opened, its, .refl bucket group, ?_⟩
    rw [setIfInBounds_self (getElem?_of_bucket opened)]
  | cons name names ih =>
    obtain ⟨fresh, apart⟩ := List.nodup_cons.mp single
    obtain ⟨first, others⟩ := List.forall_mem_cons.mp lends
    obtain ⟨taking, fits⟩ := able (List.cons_ne_nil _ _)
    obtain ⟨sequence, stored, there, rfl, acknowledged⟩ := first
    obtain ⟨middle, after, _, done, foundFirst, kept, still, back, sameFirst⟩ :=
      exists_givenBack distinct there its opened taking fits acknowledged
    have lent : ∀ other ∈ names, middle.Lends group other := by
      intro other member
      refine back.lends (others other member) ?_
      rintro named
      rw [List.mem_singleton.mp named] at member
      exact fresh member
    obtain ⟨left, last, committed, rest, found, whole, returned, same⟩ :=
      ih kept foundFirst (fun _ => ⟨still, fits⟩) (back.distinct distinct) apart lent
    refine ⟨left, last, committed, ?_, found, whole, back.trans returned, ?_⟩
    · rw [giveBackEach, done]
      dsimp only
      rw [rest]
      rfl
    · rw [same, sameFirst]
      simp only [Array.setIfInBounds_setIfInBounds]

/-! What a reading leaves of a shared queue -/

/-- What left the queue for good as a reading handed out messages and dropped others. -/
def gone (taken expired : Line) : Line :=
  taken.filter (fun e => e.2.messageClass = .qos0) ++ expired

theorem gone_sublist (taken expired : Line) : (gone taken expired).Sublist (taken ++ expired) :=
  List.filter_sublist.append_right expired

/-- The unique ids of the messages of QoS 1 and 2. -/
def lentIds (messages : List Publish) : List String :=
  (messages.filter fun message => message.qos ≠ .atMostOnce).map Publish.uniqueId

/-- A bucket as a reading leaves it that hands out entries of a shared queue as messages. -/
structure Lent (bucket left : Bucket) (group : String) (taken expired : Line)
    (messages : List Publish) : Prop where
  listed : ∀ e ∈ taken ++ expired, e ∈ bucket.queueEntries ⟨group, true⟩
  inTurn : taken.Sublist (bucket.queueEntries ⟨group, true⟩)
  apart : ((taken ++ expired).map Prod.fst).Nodup
  handed : List.Forall₂ (fun e message => ∃ stored : StoredPublish, e.2 = .publish stored ∧
    message = stored.toPublish message.packetId ∧ left.entries.get? e.1 =
      if stored.qos = .atMostOnce then none else some (.taken stored)) taken messages
  dropped : ∀ e ∈ expired, left.entries.get? e.1 = none
  others : ∀ key, key ∉ (taken ++ expired).map Prod.fst →
    left.entries.get? key = bucket.entries.get? key

namespace Lent

variable {left last : Bucket} {taken expired : Line} {messages : List Publish}
variable (lent : Lent bucket left group taken expired messages)
include lent

/-- An entry that the reading came across, by its key. -/
theorem eq_of_key {e other : EntryKey × Entry} (one : e ∈ taken ++ expired)
    (two : other ∈ taken ++ expired) (same : e.1 = other.1) : e = other :=
  List.inj_on_of_nodup_map lent.apart one two same

theorem stored {e : EntryKey × Entry} (member : e ∈ taken ++ expired) :
    bucket.entries.get? e.1 = some e.2 ∧ e.1.queue = ⟨group, true⟩ :=
  mem_queueEntries.mp (lent.listed e member)

/-- What the reading did with the entry at a key. -/
theorem at_key (key : EntryKey) :
    (∃ (stored : StoredPublish) (message : Publish), (key, .publish stored) ∈ taken ∧
        message ∈ messages ∧ message = stored.toPublish message.packetId ∧
        left.entries.get? key =
          if stored.qos = .atMostOnce then none else some (.taken stored)) ∨
      (∃ entry, (key, entry) ∈ expired ∧ left.entries.get? key = none) ∨
      key ∉ (taken ++ expired).map Prod.fst ∧
        left.entries.get? key = bucket.entries.get? key := by
  by_cases touched : key ∈ (taken ++ expired).map Prod.fst
  · obtain ⟨⟨_, entry⟩, member, rfl⟩ := List.mem_map.mp touched
    rcases List.mem_append.mp member with member | member
    · obtain ⟨message, listed, stored, its, content, left⟩ := exists_of_forall₂ lent.handed member
      obtain rfl : entry = .publish stored := its
      exact .inl ⟨stored, message, member, listed, content, left⟩
    · exact .inr (.inl ⟨entry, member, lent.dropped _ member⟩)
  · exact .inr (.inr ⟨touched, lent.others key touched⟩)

/-- A unique id of a message of QoS 1 or 2 is that of an entry that was handed out. -/
theorem exists_of_named {name : String} (named : name ∈ lentIds messages) :
    ∃ key stored, (key, .publish stored) ∈ taken ∧ stored.uniqueId = name ∧
      stored.qos ≠ .atMostOnce ∧ left.entries.get? key = some (.taken stored) := by
  obtain ⟨message, member, rfl⟩ := List.mem_map.mp named
  obtain ⟨listed, acknowledged⟩ := List.mem_filter.mp member
  obtain ⟨⟨key, entry⟩, there, stored, its, content, left⟩ :=
    exists_of_forall₂ lent.handed.flip listed
  obtain rfl : entry = .publish stored := its
  have qos : message.qos = stored.qos := by rw [content]; rfl
  have name : message.uniqueId = stored.uniqueId := by rw [content]; rfl
  have kept : stored.qos ≠ .atMostOnce := qos ▸ of_decide_eq_true acknowledged
  exact ⟨key, stored, there, name.symm, kept, left.trans (if_neg kept)⟩

theorem lends {name : String} (named : name ∈ lentIds messages) : left.Lends group name := by
  obtain ⟨⟨queue, sequence⟩, stored, member, its, acknowledged, there⟩ := lent.exists_of_named named
  obtain rfl : queue = ⟨group, true⟩ := (lent.stored (List.mem_append_left _ member)).2
  exact ⟨sequence, stored, there, its, acknowledged⟩

/-- A message of QoS 1 or 2 that was handed out is not gone. -/
theorem not_gone {key : EntryKey} {stored : StoredPublish}
    (member : (key, .publish stored) ∈ taken) (acknowledged : stored.qos ≠ .atMostOnce) :
    key ∉ (gone taken expired).map Prod.fst := by
  intro lost
  obtain ⟨other, inside, same⟩ := List.mem_map.mp lost
  cases lent.eq_of_key (List.mem_append_left _ member) ((gone_sublist _ _).subset inside) same.symm
  rcases List.mem_append.mp inside with inside | inside
  · have light := of_decide_eq_true (List.mem_filter.mp inside).2
    exact acknowledged (messageClass_publish.mp light)
  · have apart := lent.apart
    rw [List.map_append] at apart
    exact List.disjoint_of_nodup_append apart (List.mem_map.mpr ⟨_, member, rfl⟩)
      (List.mem_map.mpr ⟨_, inside, rfl⟩)

/-- No two messages of QoS 1 and 2 of the reading have one unique id. -/
theorem nodup_lentIds
    (single : ((bucket.queueEntries ⟨group, true⟩).filterMap fun e => e.2.uniqueId?).Nodup) :
    (lentIds messages).Nodup := by
  have same : messages.map Publish.uniqueId = taken.filterMap fun e => e.2.uniqueId? := by
    have handed := lent.handed
    clear lent single
    induction handed with
    | nil => rfl
    | @cons e message _ _ first _ ih =>
      obtain ⟨stored, its, content, _⟩ := first
      have name : e.2.uniqueId? = some message.uniqueId := by
        rw [its, content]
        rfl
      rw [List.map_cons, ih, List.filterMap_cons, name]
  have all : (messages.map Publish.uniqueId).Nodup :=
    same ▸ single.sublist (lent.inTurn.filterMap _)
  exact all.sublist (List.filter_sublist.map _)

/-- The queue keeps all its entries of QoS 1 and 2 but those that expired. -/
theorem classSize_eq (its : bucket.Agrees) (agrees : last.Agrees)
    (entries : last.entries = bucket.entries.filter fun key _ =>
      decide (key ∉ (gone taken expired).map Prod.fst)) :
    last.classSize ⟨group, true⟩ .qos12 + Line.acknowledged expired =
      bucket.classSize ⟨group, true⟩ .qos12 := by
  let keys := (gone taken expired).map Prod.fst
  let line := bucket.queueEntries ⟨group, true⟩
  have inside : gone taken expired ⊆ taken ++ expired := (gone_sublist taken expired).subset
  have left : last.queueEntries ⟨group, true⟩ = line.filter fun e => decide (e.1 ∉ keys) := by
    rw [Bucket.queueEntries, entries]
    exact List.filter_comm ..
  -- what the filter takes out is what is gone
  have lost : (line.filter fun e => !decide (e.1 ∉ keys)).Perm (gone taken expired) := by
    have keyed : (line.map Prod.fst).Nodup := nodup_queueEntries bucket _
    have single : keys.Nodup := lent.apart.sublist ((gone_sublist taken expired).map Prod.fst)
    refine (List.perm_ext_iff_of_nodup (keyed.of_map.filter _) single.of_map).mpr fun e => ?_
    simp only [List.mem_filter, Bool.not_eq_true', decide_eq_false_iff_not, not_not]
    constructor
    · rintro ⟨listed, member⟩
      obtain ⟨other, there, same⟩ := List.mem_map.mp member
      have also := lent.listed other (inside there)
      rwa [List.inj_on_of_nodup_map keyed listed also same.symm]
    · intro there
      exact ⟨lent.listed e (inside there), List.mem_map.mpr ⟨e, there, rfl⟩⟩
  have parts := List.countP_eq_countP_filter_add line (fun e => e.2.messageClass = .qos12)
    (fun e => decide (e.1 ∉ keys))
  have none : (taken.filter fun e => e.2.messageClass = .qos0).countP
      (fun e => e.2.messageClass = .qos12) = 0 := by
    refine List.countP_eq_zero.mpr fun e member => ?_
    have light := of_decide_eq_true (List.mem_filter.mp member).2
    simp [light]
  have expiredOnes : expired.countP (fun e => e.2.messageClass = .qos12) =
      Line.acknowledged expired := by
    refine List.countP_congr fun e _ => ?_
    cases e.2.messageClass <;> simp
  rw [its.indexed.faithful.counts, agrees.indexed.faithful.counts, left]
  rw [lost.countP_eq, gone, List.countP_append, none, expiredOnes, Nat.zero_add] at parts
  exact parts.symm

variable (distinct : Table.Distinct bucket.entries ⟨group, true⟩)
include distinct

theorem distinct_left : Table.Distinct left.entries ⟨group, true⟩ := by
  refine distinct.of_named ?_
  intro key entry there _
  rcases lent.at_key key with ⟨stored, _, member, _, _, left⟩ | ⟨_, _, left⟩ | ⟨_, same⟩
  · rw [left] at there
    split at there
    · cases there
    · cases there
      exact ⟨_, (lent.stored (List.mem_append_left _ member)).1, rfl⟩
  · cases left.symm.trans there
  · exact ⟨entry, same.symm.trans there, rfl⟩

/-- Once all are given back, nothing is missing but what is gone. -/
theorem entries_eq {calls : List String} (returned : left.Returned group calls last)
    (known : calls ⊆ lentIds messages) (all : lentIds messages ⊆ calls) :
    last.entries = bucket.entries.filter fun key _ =>
      decide (key ∉ (gone taken expired).map Prod.fst) := by
  refine Table.ext_get? fun key => ?_
  rw [returned.entries, Table.get?_filter]
  have stays (intact : key ∉ (gone taken expired).map Prod.fst) (before : Option Entry) :
      before.filter (fun _ => decide (key ∉ (gone taken expired).map Prod.fst)) = before := by
    cases before <;> simp [intact]
  have leaves (lost : key ∈ (gone taken expired).map Prod.fst) (before : Option Entry) :
      before.filter (fun _ => decide (key ∉ (gone taken expired).map Prod.fst)) = none := by
    simp [lost]
  rcases lent.at_key key with
    ⟨stored, message, member, listed, content, there⟩ | ⟨entry, member, there⟩ | ⟨free, there⟩
  · have here := List.mem_append_left expired member
    obtain ⟨found, mine⟩ := lent.stored here
    by_cases once : stored.qos = .atMostOnce
    · rw [if_pos once] at there
      rw [leaves, if_pos mine, there]
      · rfl
      · refine List.mem_map.mpr ⟨_, List.mem_append_left _ (List.mem_filter.mpr ⟨member, ?_⟩), rfl⟩
        exact decide_eq_true (messageClass_publish.mpr once)
    · rw [if_neg once] at there
      have qos : message.qos = stored.qos := by rw [content]; rfl
      have name : message.uniqueId = stored.uniqueId := by rw [content]; rfl
      have called : stored.uniqueId ∈ calls := by
        refine all (List.mem_map.mpr ⟨message, List.mem_filter.mpr ⟨listed, ?_⟩, name⟩)
        exact decide_eq_true (qos ▸ once)
      rw [stays (lent.not_gone member once), if_pos mine, there, Option.map_some,
        Entry.returned_taken called, found]
  · have mine := (lent.stored (List.mem_append_right taken member)).2
    rw [leaves, if_pos mine, there]
    · rfl
    · exact List.mem_map.mpr ⟨_, List.mem_append_right _ member, rfl⟩
  · have intact : key ∉ (gone taken expired).map Prod.fst := by
      intro lost
      exact free (((gone_sublist taken expired).map Prod.fst).subset lost)
    rw [stays intact, there]
    split
    · rename_i mine
      cases found : bucket.entries.get? key with
      | none => rfl
      | some entry =>
        rw [Option.map_some, Entry.returned_of_unnamed]
        -- a message of the reading would stand at this key
        intro name called named
        obtain ⟨other, stored, member, its, _⟩ := lent.exists_of_named (known called)
        have here := List.mem_append_left expired member
        obtain ⟨thereToo, itsToo⟩ := lent.stored here
        obtain rfl := distinct found mine named thereToo itsToo (congrArg some its)
        exact free (List.mem_map.mpr ⟨_, here, rfl⟩)
    · rfl

end Lent

/-- What was handed out of a shared queue is lent. -/
theorem lent_of_handedOut {left : Bucket} {now : UInt64} {seen : Line} {messages : List Publish}
    (opened : store.bucket index = .ok bucket) (there : after.bucket index = .ok left)
    (front : seen.Sublist (bucket.queueEntries ⟨group, true⟩))
    (handed : HandedOut store index true (Line.ready seen now) (Line.stale seen now) messages
      after) :
    Lent bucket left group (Line.ready seen now) (Line.stale seen now) messages := by
  have keyed : (seen.map Prod.fst).Nodup := (nodup_queueEntries bucket _).sublist (front.map _)
  have stands := entryAt_of_getElem? (getElem?_of_bucket there)
  constructor
  · intro e member
    rcases List.mem_append.mp member with member | member
    · exact front.subset (List.mem_filter.mp member).1
    · exact front.subset (List.mem_filter.mp member).1
  · exact List.filter_sublist.trans front
  · rw [List.map_append]
    refine List.nodup_append.mpr ⟨keyed.sublist (List.filter_sublist.map _),
      keyed.sublist (List.filter_sublist.map _), ?_⟩
    rintro _ one _ two rfl
    obtain ⟨e, ready, same⟩ := List.mem_map.mp one
    obtain ⟨other, late, sameToo⟩ := List.mem_map.mp two
    obtain ⟨here, waits⟩ := List.mem_filter.mp ready
    obtain ⟨hereToo, stale⟩ := List.mem_filter.mp late
    obtain rfl := List.inj_on_of_nodup_map keyed here hereToo (same.trans sameToo.symm)
    exact Entry.not_isStale_of_isReady waits stale
  · refine handed.handed.imp ?_
    rintro e message ⟨stored, its, content, left⟩
    exact ⟨stored, its, content, (stands e.1).symm.trans left⟩
  · intro e member
    exact (stands e.1).symm.trans (handed.dropped e member)
  · intro key free
    rw [← stands, handed.others index key fun _ => free,
      entryAt_of_getElem? (getElem?_of_bucket opened)]

/-- A reading of a shared queue lends what it hands out. Its journal, if it may grow without end,
takes what is to come if there is anything to be given back. -/
theorem exists_lent (reached : store.Reached) (opened : store.bucket index = .ok bucket)
    {pool : List UInt16} {byteLimit now : UInt64} {messages : List Publish}
    (read : store.readNew ⟨group, true⟩ pool byteLimit now index = (.ok messages, after)) :
    ∃ taken expired left, HandedOut store index true taken expired messages after ∧
      (∀ e ∈ expired, e.2.isStale now = true) ∧ after.bucket index = .ok left ∧ left.Kept ∧
      Lent bucket left group taken expired messages ∧
      (bucket.journal.Endless → lentIds messages ≠ [] →
        left.journal.Taking ∧ Batch.fits group = true) := by
  have kept := reached.kept
  have found := getElem?_of_bucket opened
  have its := kept found
  let line := bucket.queueEntries ⟨group, true⟩
  let allowance : Allowance :=
    ⟨pool.length, Line.free line pool, none, byteLimit, store.settings.overflow⟩
  have whole := ((readNew_edited kept ⟨group, true⟩ pool byteLimit now index).sound kept
    reached.writable).1
  rw [read] at whole
  obtain ⟨rfl, middle, done, rfl⟩ := commit_of_readNew opened its.agrees rfl read
  obtain ⟨seen, unseen, ids, parts, hands⟩ := exists_hands true now allowance line
  have delivers := delivers_deliver true now allowance line
  generalize deliver true now allowance line = delivery at *
  have front : seen.Sublist line := parts ▸ List.sublist_append_left seen unseen
  have keyed : (line.map Prod.fst).Nodup := nodup_queueEntries bucket _
  have stored : ∀ e ∈ seen, bucket.entries.get? e.1 = some e.2 :=
    fun e member => (mem_queueEntries.mp (front.subset member)).1
  have handed :=
    handedOut_of_commit kept found hands stored (delivers.keys_sublist.nodup keyed) done
  obtain ⟨fine, left, there, written⟩ := journal_of_done opened done
  have there : { middle with
      stats.expired := middle.stats.expired + UInt64.ofNat delivery.expired }.bucket index =
    .ok left := there
  have lent := lent_of_handedOut opened there front handed
  refine ⟨_, _, left, handed, fun e member => (List.mem_filter.mp member).2, there,
    whole (getElem?_of_bucket there), lent, ?_⟩
  intro endless some
  obtain ⟨name, named⟩ := List.exists_mem_of_ne_nil _ some
  obtain ⟨key, message, member, _⟩ := lent.exists_of_named named
  obtain ⟨_, _, _, _, _, change, made, _⟩ := exists_of_forall₂ hands.handed member
  obtain ⟨batches, held, -⟩ := its.recalled
  have taking := Bucket.taking_of_busy endless held fine (List.ne_nil_of_mem made)
  obtain ⟨here, mine⟩ := lent.stored (List.mem_append_left _ member)
  have short := reached.writable.bucket found here (.queueId, key.queue.id) List.mem_cons_self
  rw [mine] at short
  exact ⟨written ▸ Bucket.taking_written taking _, short⟩

/-- Giving messages back undoes the reading of a shared queue. -/
theorem giveBack_undoes_readNew (reached : store.Reached) (opened : store.bucket index = .ok bucket)
    (endless : bucket.journal.Endless)
    (single : ((bucket.queueEntries ⟨group, true⟩).filterMap fun e => e.2.uniqueId?).Nodup)
    {pool : List UInt16} {byteLimit now : UInt64} {messages : List Publish}
    (read : store.readNew ⟨group, true⟩ pool byteLimit now index = (.ok messages, after)) :
    (lentIds messages).Nodup ∧ ∃ taken expired : Line,
      (∀ e ∈ taken ++ expired, e ∈ bucket.queueEntries ⟨group, true⟩) ∧
      (∀ e ∈ expired, e.2.isStale now = true) ∧
      HandedOut store index true taken expired messages after ∧
      ∀ calls : List String, calls.Nodup → calls ⊆ lentIds messages →
        ∃ (last : Store) (left : Bucket),
          after.giveBackEach group index calls = (calls.map fun _ => .ok true, last) ∧
          last.bucket index = .ok left ∧
          (∃ committed, last = { after with
            buckets := after.buckets.setIfInBounds index left
            outbox.committed := committed }) ∧
          last.outbox.released = after.outbox.released ∧
          left.classSize ⟨group, true⟩ .qos12 + Line.acknowledged expired =
            bucket.classSize ⟨group, true⟩ .qos12 ∧
          (∀ name ∈ calls, last.giveBack group name index = (.ok false, last)) ∧
          (lentIds messages ⊆ calls → left.entries = bucket.entries.filter fun key _ =>
            decide (key ∉ (gone taken expired).map Prod.fst)) := by
  obtain ⟨taken, expired, lending, handed, stale, found, kept, lent, able⟩ :=
    exists_lent reached opened read
  have its := reached.kept (getElem?_of_bucket opened)
  have distinct : Table.Distinct bucket.entries ⟨group, true⟩ := .of_nodup single
  have apart := lent.nodup_lentIds single
  have run {calls : List String} (once : calls.Nodup) (known : calls ⊆ lentIds messages) :=
    exists_giveBackEach kept found
      (fun some => able endless (List.ne_nil_of_mem (known (List.head_mem some))))
      (lent.distinct_left distinct) once (fun name called => lent.lends (known called))
  -- all are given back, which no further call changes the count of
  obtain ⟨final, -, -, -, -, whole, all, -⟩ := run apart (List.Subset.refl _)
  have count := lent.classSize_eq its.agrees whole.agrees
    (lent.entries_eq distinct all (List.Subset.refl _) (List.Subset.refl _))
  refine ⟨apart, taken, expired, lent.listed, stale, handed, ?_⟩
  intro calls once known
  obtain ⟨left, last, committed, answered, there, -, returned, same⟩ := run once known
  refine ⟨last, left, answered, there, ⟨committed, same⟩, by rw [same], ?_, ?_, ?_⟩
  · rw [returned.counts, ← all.counts]
    exact count
  · intro name called
    exact giveBack_of_missing there (returned.missing called)
  · exact lent.entries_eq distinct returned known

/-- A group of which one message is taken; one that has expired, one of QoS 0 and two of QoS 1 and 2
wait. -/
def shared : Store :=
  let add (qos : Qos) (name : String) (payload : UInt64) := Event.ask (.add ⟨"g", true⟩
    (.publish { Publish.ofQos qos name payload with timestamp := 10 }) 10 .discard 0)
  ((World.start .single .empty).run
    [add .atLeastOnce "u1" 1, .ask (.readNew ⟨"g", true⟩ [1] 1000 0 0),
      .ask (.add ⟨"g", true⟩ (.publish { Publish.ofQos .atLeastOnce "u2" 2 with
        expiry := some 1 }) 10 .discard 0),
      add .atMostOnce "u3" 3, add .atLeastOnce "u4" 4, add .exactlyOnce "u5" 5]).store

/-- Two messages are given back in the other order, and one of them once more, in vain. -/
theorem giveBack_undoes_readNew_shared : ∃ messages after last left,
    shared.readNew ⟨"g", true⟩ [1, 2, 3] 1000 1000 0 = (.ok messages, after) ∧
      messages.map Publish.uniqueId = ["u3", "u4", "u5"] ∧
      after.giveBackEach "g" 0 ["u5", "u4"] = ([.ok true, .ok true], last) ∧
      last.giveBack "g" "u5" 0 = (.ok false, last) ∧ last.bucket 0 = .ok left ∧
      left.entries.bindings.map (fun e => (e.2.uniqueId?, e.2.isNew)) =
        [(some "u1", false), (some "u4", true), (some "u5", true)] := by
  have reached : shared.Reached :=
    ⟨.single, .empty, .single, .empty, _, Store.inMemory_single, rfl⟩
  have fine : (shared.bucket 0).toOption.any (fun bucket => decide (bucket.journal.Endless ∧
      ((bucket.queueEntries ⟨"g", true⟩).filterMap fun e => e.2.uniqueId?).Nodup)) = true := by
    decide +kernel
  have answered : (shared.readNew ⟨"g", true⟩ [1, 2, 3] 1000 1000 0).1.toOption.map
      (fun messages => (messages.map Publish.uniqueId, lentIds messages)) =
        some (["u3", "u4", "u5"], ["u4", "u5"]) := by decide +kernel
  have restored : ((((shared.readNew ⟨"g", true⟩ [1, 2, 3] 1000 1000 0).2.giveBackEach "g" 0
      ["u5", "u4"]).2).bucket 0).toOption.map (fun left => left.entries.bindings.map fun e =>
        (e.2.uniqueId?, e.2.isNew)) =
      some [(some "u1", false), (some "u4", true), (some "u5", true)] := by decide +kernel
  obtain ⟨bucket, opened, fine⟩ := exists_bucket fine
  obtain ⟨endless, single⟩ := of_decide_eq_true fine
  cases read : shared.readNew ⟨"g", true⟩ [1, 2, 3] 1000 1000 0 with
  | mk answer after =>
    rw [read] at answered restored
    cases answer with
    | error fault => cases answered
    | ok messages =>
      obtain ⟨names, lent⟩ := Prod.mk.inj (Option.some.inj answered)
      obtain ⟨_, taken, expired, _, _, _, all⟩ :=
        giveBack_undoes_readNew reached opened endless single read
      rw [lent] at all
      obtain ⟨last, left, done, there, _, _, _, again, _⟩ :=
        all ["u5", "u4"] (by decide) (by decide)
      rw [done, there] at restored
      exact ⟨messages, after, last, left, rfl, names, done, again "u5" List.mem_cons_self, there,
        Option.some.inj restored⟩

end Store

end DeliveryQueue
