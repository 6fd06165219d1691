import DeliveryQueue.Proofs.Entries

/-!
What a bucket keeps beside its entries agrees with them: the counts of each queue, the QoS 0 entries
by age and the holders of packet ids (`Indexed`). Every change keeps it so, and as long as no two
entries of a queue carry one packet id, each carrier is found (`Traced`).
-/
namespace DeliveryQueue

namespace PacketIds

theorem holder?_vacate (ids : PacketIds) (id other : UInt16) (sequence : UInt64) :
    (ids.vacate id sequence).holder? other =
      if other = id ∧ ids.holder? id = some sequence then none else ids.holder? other := by
  unfold vacate
  by_cases held : ids.holder? id = some sequence
  · rw [if_pos held]
    by_cases same : other = id
    · rw [if_pos ⟨same, held⟩, same]
      exact Table.get?_erase_self ids.holders id
    · rw [if_neg fun both => same both.1]
      exact Table.get?_erase_of_ne same ids.holders
  · simp [held]

theorem holder?_occupy (ids : PacketIds) (id other : UInt16) (sequence : UInt64) :
    (ids.occupy id sequence).holder? other =
      if other = id ∧ ids.available id sequence = true then some sequence
      else ids.holder? other := by
  unfold occupy
  by_cases free : ids.available id sequence = true
  · by_cases same : other = id
    · simp [free, same, holder?]
    · simp [free, same, holder?, Table.get?_insert_of_ne same]
  · simp [free]

theorem available_of_holder?_eq_none {ids : PacketIds} {id : UInt16} (sequence : UInt64)
    (free : ids.holder? id = none) : ids.available id sequence = true := by
  simp [available, free]

end PacketIds

namespace QueueCounts

theorem ofClass_enter (counts : QueueCounts) (sequence : UInt64) (entry : Entry)
    (messageClass : MessageClass) :
    (counts.enter sequence entry).ofClass messageClass =
      counts.ofClass messageClass + if entry.messageClass = messageClass then 1 else 0 := by
  unfold enter
  cases entry.messageClass <;> cases messageClass <;> rfl

theorem ofClass_leave (counts : QueueCounts) (sequence : UInt64) (entry : Entry)
    (messageClass : MessageClass) :
    (counts.leave sequence entry).ofClass messageClass =
      counts.ofClass messageClass - if entry.messageClass = messageClass then 1 else 0 := by
  unfold leave
  cases entry.messageClass <;> cases messageClass <;> rfl

theorem ofClass_le_size (counts : QueueCounts) (messageClass : MessageClass) :
    counts.ofClass messageClass ≤ counts.size := by
  cases messageClass
  · exact Nat.le_add_right _ _
  · exact Nat.le_add_left _ _

theorem packetIds_enter (counts : QueueCounts) (sequence : UInt64) (entry : Entry) :
    (counts.enter sequence entry).packetIds =
      entry.packetId?.elim counts.packetIds (counts.packetIds.occupy · sequence) := by
  unfold enter
  cases entry.messageClass <;> cases entry.packetId? <;> rfl

theorem packetIds_leave (counts : QueueCounts) (sequence : UInt64) (entry : Entry) :
    (counts.leave sequence entry).packetIds =
      entry.packetId?.elim counts.packetIds (counts.packetIds.vacate · sequence) := by
  unfold leave
  cases entry.messageClass <;> cases entry.packetId? <;> rfl

@[simp] theorem zero_leave (sequence : UInt64) (entry : Entry) :
    zero.leave sequence entry = zero := by
  unfold leave zero
  cases entry.messageClass <;> cases entry.packetId? <;> rfl

end QueueCounts

@[simp] theorem EntryKey.age_inj {a b : EntryKey} : a.age = b.age ↔ a = b := by
  cases a; cases b; simp [EntryKey.age, and_comm]

/-- How many entries of a class a queue holds. -/
def Table.count (entries : Entries) (queue : QueueKey) (messageClass : MessageClass) : Nat :=
  entries.total fun key entry =>
    if key.queue = queue ∧ entry.messageClass = messageClass then 1 else 0

namespace Bucket

variable {bucket : Bucket} {budget : Budget} {key : EntryKey} {entry : Entry}

/-- The counts of a queue; those of a queue that is not counted are zero. -/
def countsOf (bucket : Bucket) (queue : QueueKey) : QueueCounts := (bucket.counts? queue).getD .zero

/-- The sequence number of the entry that holds a packet id. -/
def holder? (bucket : Bucket) (queue : QueueKey) (id : UInt16) : Option UInt64 :=
  (bucket.countsOf queue).packetIds.holder? id

theorem inFlightKey?_eq (bucket : Bucket) (queue : QueueKey) (id : UInt16) :
    bucket.inFlightKey? queue id =
      (bucket.holder? queue id).map fun sequence => ⟨queue, sequence⟩ := by
  unfold inFlightKey? holder? countsOf
  cases bucket.counts? queue <;> rfl

theorem classSize_eq (bucket : Bucket) (queue : QueueKey) (messageClass : MessageClass) :
    bucket.classSize queue messageClass = (bucket.countsOf queue).ofClass messageClass := by
  unfold classSize countsOf
  cases bucket.counts? queue with
  | none => cases messageClass <;> rfl
  | some counts => rfl

theorem size_eq (bucket : Bucket) (queue : QueueKey) :
    bucket.size queue = bucket.classSize queue .qos0 + bucket.classSize queue .qos12 := by
  unfold size classSize
  cases bucket.counts? queue <;> rfl

/-! Taking an entry out -/

theorem detach_of_get?_eq_none (absent : bucket.entries.get? key = none) :
    bucket.detach budget key = (bucket, budget, none) := by
  simp [detach, absent]

section Detach
variable (found : bucket.entries.get? key = some entry)
include found

/-- The bucket after an entry was taken out. -/
theorem detach_of_get?_eq_some :
    bucket.detach budget key =
      ({ bucket with
          entries := bucket.entries.erase key
          queues := (bucket.counts? key.queue).elim bucket.queues
            fun counts => bucket.queues.insert key.queue (counts.leave key.sequence entry)
          qos0ByAge := entry.qos0Bytes?.elim bucket.qos0ByAge
            fun _ => bucket.qos0ByAge.erase key.age },
        entry.qos0Bytes?.elim budget budget.refund, some entry) := by
  simp only [detach, found, counts?]
  cases bucket.queues.get? key.queue <;> cases entry.qos0Bytes? <;> rfl

theorem countsOf_detach (queue : QueueKey) :
    (bucket.detach budget key).1.countsOf queue =
      if queue = key.queue then (bucket.countsOf queue).leave key.sequence entry
      else bucket.countsOf queue := by
  rw [detach_of_get?_eq_some found]
  simp only [countsOf, counts?]
  by_cases same : queue = key.queue
  · subst same
    cases counted : bucket.queues.get? key.queue <;> simp [counted]
  · cases bucket.queues.get? key.queue with
    | none => simp [same]
    | some counts => simp [same, Table.get?_insert_of_ne same]

theorem holder?_detach (queue : QueueKey) (id : UInt16) :
    (bucket.detach budget key).1.holder? queue id =
      if queue = key.queue ∧ entry.packetId? = some id ∧ bucket.holder? queue id = some key.sequence
      then none else bucket.holder? queue id := by
  unfold holder?
  rw [countsOf_detach found]
  by_cases same : queue = key.queue
  · simp only [same, true_and, if_true, QueueCounts.packetIds_leave]
    cases carried : entry.packetId? with
    | none => simp
    | some other =>
      rw [Option.elim, PacketIds.holder?_vacate]
      by_cases equal : id = other
      · simp [equal]
      · simp [equal, Ne.symm equal]
  · simp [same]

theorem age_detach (other : EntryKey) :
    (bucket.detach budget key).1.qos0ByAge.get? other.age =
      if other = key ∧ entry.qos0Bytes?.isSome then none else bucket.qos0ByAge.get? other.age := by
  rw [detach_of_get?_eq_some found]
  cases entry.qos0Bytes? with
  | none => simp
  | some bytes =>
    by_cases same : other = key
    · simp [same]
    · simp [same, Table.get?_erase_of_ne (mt EntryKey.age_inj.mp same)]

end Detach

@[simp] theorem entries_detach (bucket : Bucket) (budget : Budget) (key : EntryKey) :
    (bucket.detach budget key).1.entries = bucket.entries.erase key := by
  cases found : bucket.entries.get? key with
  | none => rw [detach_of_get?_eq_none found, Table.erase_of_get?_eq_none found]
  | some entry => rw [detach_of_get?_eq_some found]

@[simp] theorem displaced_detach (bucket : Bucket) (budget : Budget) (key : EntryKey) :
    (bucket.detach budget key).2.2 = bucket.entries.get? key := by
  cases found : bucket.entries.get? key with
  | none => rw [detach_of_get?_eq_none found]
  | some entry => rw [detach_of_get?_eq_some found]

/-! Putting an entry in -/

theorem occupy_eq (bucket : Bucket) (budget : Budget) (key : EntryKey) (entry : Entry) :
    bucket.occupy budget key entry =
      ({ bucket with
          entries := bucket.entries.insert key entry
          queues := bucket.queues.insert key.queue
            ((bucket.countsOf key.queue).enter key.sequence entry)
          qos0ByAge := entry.qos0Bytes?.elim bucket.qos0ByAge
            fun _ => bucket.qos0ByAge.insert key.age () },
        entry.qos0Bytes?.elim budget budget.charge) := by
  simp only [occupy, countsOf, counts?]
  cases entry.qos0Bytes? <;> rfl

theorem countsOf_occupy (queue : QueueKey) :
    (bucket.occupy budget key entry).1.countsOf queue =
      if queue = key.queue then (bucket.countsOf queue).enter key.sequence entry
      else bucket.countsOf queue := by
  rw [occupy_eq]
  by_cases same : queue = key.queue
  · subst same
    simp [countsOf, counts?]
  · simp [same, countsOf, counts?, Table.get?_insert_of_ne same]

theorem holder?_occupy (queue : QueueKey) (id : UInt16) :
    (bucket.occupy budget key entry).1.holder? queue id =
      if queue = key.queue ∧ entry.packetId? = some id ∧
          (bucket.countsOf queue).packetIds.available id key.sequence = true
      then some key.sequence else bucket.holder? queue id := by
  unfold holder?
  rw [countsOf_occupy]
  by_cases same : queue = key.queue
  · simp only [same, true_and, if_true, QueueCounts.packetIds_enter]
    cases carried : entry.packetId? with
    | none => simp
    | some other =>
      rw [Option.elim, PacketIds.holder?_occupy]
      by_cases equal : id = other
      · simp [equal]
      · simp [equal, Ne.symm equal]
  · simp [same]

theorem age_occupy (other : EntryKey) :
    (bucket.occupy budget key entry).1.qos0ByAge.get? other.age =
      if other = key ∧ entry.qos0Bytes?.isSome then some ()
      else bucket.qos0ByAge.get? other.age := by
  rw [occupy_eq]
  cases entry.qos0Bytes? with
  | none => simp
  | some bytes =>
    by_cases same : other = key
    · simp [same]
    · simp [same, Table.get?_insert_of_ne (mt EntryKey.age_inj.mp same)]

@[simp] theorem entries_occupy :
    (bucket.occupy budget key entry).1.entries = bucket.entries.insert key entry := by
  rw [occupy_eq]

/-! Agreement -/

/-- What is kept beside the entries agrees with them. -/
structure Indexed (bucket : Bucket) : Prop where
  counts : ∀ queue messageClass,
    (bucket.countsOf queue).ofClass messageClass = bucket.entries.count queue messageClass
  ages : ∀ key, bucket.qos0ByAge.get? key.age =
    ((bucket.entries.get? key).bind Entry.qos0Bytes?).map fun _ => ()
  holders : ∀ {queue id sequence}, bucket.holder? queue id = some sequence →
    ∃ entry, bucket.entries.get? ⟨queue, sequence⟩ = some entry ∧ entry.packetId? = some id

/-- Every entry that carries a packet id is found by it. -/
def Traced (bucket : Bucket) : Prop :=
  ∀ ⦃queue id sequence entry⦄, bucket.entries.get? ⟨queue, sequence⟩ = some entry →
    entry.packetId? = some id → bucket.holder? queue id = some sequence

theorem indexed_ofJournal (index : Nat) (journal : Journal) :
    (ofJournal index journal).Indexed where
  counts _ messageClass := by cases messageClass <;> rfl
  ages _ := rfl
  holders held := by cases held

theorem traced_ofJournal (index : Nat) (journal : Journal) : (ofJournal index journal).Traced := by
  intro queue id sequence entry found
  cases found

theorem Indexed.detach (h : bucket.Indexed) (budget : Budget) (key : EntryKey) :
    (bucket.detach budget key).1.Indexed := by
  cases found : bucket.entries.get? key with
  | none => rwa [detach_of_get?_eq_none found]
  | some entry =>
    constructor
    · intro queue messageClass
      have trade := Table.total_erase bucket.entries (fun key entry =>
        if key.queue = queue ∧ entry.messageClass = messageClass then 1 else 0) key
      have before := h.counts queue messageClass
      rw [countsOf_detach found, entries_detach]
      simp only [Table.count, found, Option.elim] at trade before ⊢
      by_cases same : queue = key.queue
      · subst same
        rw [if_pos rfl, QueueCounts.ofClass_leave]
        simp only [true_and] at trade
        omega
      · rw [if_neg same]
        simp only [Ne.symm same, false_and, if_false] at trade
        omega
    · intro other
      rw [age_detach found, entries_detach, h.ages]
      by_cases same : other = key
      · subst same
        rw [Table.get?_erase_self, found]
        cases weighs : entry.qos0Bytes? <;> simp [weighs]
      · simp [same, Table.get?_erase_of_ne same]
    · intro queue id sequence held
      rw [holder?_detach found] at held
      split at held
      · cases held
      · rename_i kept
        obtain ⟨carrier, stored, carries⟩ := h.holders held
        have differs : (⟨queue, sequence⟩ : EntryKey) ≠ key := by
          rintro rfl
          rw [found] at stored
          cases stored
          exact kept ⟨rfl, carries, held⟩
        exact ⟨carrier, by rw [entries_detach, Table.get?_erase_of_ne differs, stored], carries⟩

theorem Traced.detach (h : bucket.Traced) (budget : Budget) (key : EntryKey) :
    (bucket.detach budget key).1.Traced := by
  cases found : bucket.entries.get? key with
  | none => rwa [detach_of_get?_eq_none found]
  | some entry =>
    intro queue id sequence carrier stored carries
    rw [entries_detach] at stored
    by_cases same : (⟨queue, sequence⟩ : EntryKey) = key
    · rw [same, Table.get?_erase_self] at stored
      cases stored
    · rw [Table.get?_erase_of_ne same] at stored
      have held := h stored carries
      rw [holder?_detach found, held]
      apply if_neg
      rintro ⟨rfl, _, equal⟩
      exact same (by rw [Option.some.inj equal])

section Occupy
variable (free : bucket.entries.get? key = none)
include free

theorem Indexed.occupy (h : bucket.Indexed) (budget : Budget) (entry : Entry) :
    (bucket.occupy budget key entry).1.Indexed := by
  constructor
  · intro queue messageClass
    have trade := Table.total_set bucket.entries (fun key entry =>
      if key.queue = queue ∧ entry.messageClass = messageClass then 1 else 0) key (some entry)
    have before := h.counts queue messageClass
    rw [countsOf_occupy, entries_occupy]
    simp only [Table.count, Table.set, free, Option.elim] at trade before ⊢
    by_cases same : queue = key.queue
    · subst same
      rw [if_pos rfl, QueueCounts.ofClass_enter]
      simp only [true_and] at trade
      omega
    · rw [if_neg same]
      simp only [Ne.symm same, false_and, if_false] at trade
      omega
  · intro other
    rw [age_occupy, entries_occupy, h.ages]
    by_cases same : other = key
    · subst same
      rw [Table.get?_insert_self, free]
      cases weighs : entry.qos0Bytes? <;> simp [weighs]
    · simp [same, Table.get?_insert_of_ne same]
  · intro queue id sequence held
    rw [holder?_occupy] at held
    rw [entries_occupy]
    split at held
    · rename_i taken
      obtain ⟨rfl, carries, _⟩ := taken
      cases held
      exact ⟨entry, Table.get?_insert_self _ key entry, carries⟩
    · obtain ⟨carrier, stored, carries⟩ := h.holders held
      have differs : (⟨queue, sequence⟩ : EntryKey) ≠ key := by
        rintro rfl
        rw [free] at stored
        cases stored
      exact ⟨carrier, by rw [Table.get?_insert_of_ne differs, stored], carries⟩

/-- An entry is found by its packet id unless another of its queue carries that id already. -/
theorem Traced.occupy (h : bucket.Traced) (agrees : bucket.Indexed) (budget : Budget)
    (single : ∀ {id sequence other}, entry.packetId? = some id →
      bucket.entries.get? ⟨key.queue, sequence⟩ = some other → other.packetId? ≠ some id) :
    (bucket.occupy budget key entry).1.Traced := by
  intro queue id sequence carrier stored carries
  rw [entries_occupy] at stored
  rw [holder?_occupy]
  by_cases same : (⟨queue, sequence⟩ : EntryKey) = key
  · subst same
    rw [Table.get?_insert_self] at stored
    cases stored
    have nobody : bucket.holder? queue id = none := by
      cases held : bucket.holder? queue id with
      | none => rfl
      | some holder =>
        obtain ⟨other, there, its⟩ := agrees.holders held
        exact absurd its (single carries there)
    exact if_pos ⟨rfl, carries, PacketIds.available_of_holder?_eq_none sequence nobody⟩
  · rw [Table.get?_insert_of_ne same] at stored
    refine (if_neg ?_).trans (h stored carries)
    rintro ⟨rfl, its, _⟩
    exact single its stored carries

end Occupy

/-! Applying changes -/

/-- Take out what stands at a key and put back what belongs there. -/
def put (bucket : Bucket) (budget : Budget) (key : EntryKey) : Option Entry → Bucket × Budget
  | none => ((bucket.detach budget key).1, (bucket.detach budget key).2.1)
  | some entry => (bucket.detach budget key).1.occupy (bucket.detach budget key).2.1 key entry

@[simp] theorem entries_put (after : Option Entry) :
    (bucket.put budget key after).1.entries = bucket.entries.set key after := by
  cases after with
  | none => exact entries_detach bucket budget key
  | some entry => simp [put, Table.set, Table.insert_erase]

theorem journal_put (after : Option Entry) :
    (bucket.put budget key after).1.journal = bucket.journal ∧
      (bucket.put budget key after).1.index = bucket.index := by
  have cleared : (bucket.detach budget key).1.journal = bucket.journal ∧
      (bucket.detach budget key).1.index = bucket.index := by
    cases found : bucket.entries.get? key with
    | none => simp [detach_of_get?_eq_none found]
    | some entry => simp [detach_of_get?_eq_some found]
  cases after with
  | none => exact cleared
  | some entry => simpa [put, occupy_eq] using cleared

theorem Indexed.put (h : bucket.Indexed) (budget : Budget) (key : EntryKey)
    (after : Option Entry) : (bucket.put budget key after).1.Indexed := by
  cases after with
  | none => exact h.detach budget key
  | some entry => exact (h.detach budget key).occupy (by simp) _ entry

/-- Carriers stay traced if afterwards no two entries of a queue carry one id. -/
theorem Traced.put (h : bucket.Traced) (agrees : bucket.Indexed) (budget : Budget)
    {key : EntryKey} {after : Option Entry}
    (single : (bucket.entries.set key after).SingleCarriers) :
    (bucket.put budget key after).1.Traced := by
  cases after with
  | none => exact h.detach budget key
  | some entry =>
    refine (h.detach budget key).occupy (by simp) (agrees.detach budget key) _ ?_
    intro id sequence other carries stored carriesToo
    rw [entries_detach] at stored
    have differs : (⟨key.queue, sequence⟩ : EntryKey) ≠ key := by
      intro same
      rw [same, Table.get?_erase_self] at stored
      cases stored
    rw [Table.get?_erase_of_ne differs] at stored
    have here : (bucket.entries.set key (some entry)).get? ⟨key.queue, key.sequence⟩ = some entry :=
      Table.get?_set_self bucket.entries key (some entry)
    have there : (bucket.entries.set key (some entry)).get? ⟨key.queue, sequence⟩ = some other := by
      rw [Table.get?_set_of_ne differs, stored]
    exact differs (by rw [single there carriesToo here carries])

theorem apply_eq (bucket : Bucket) (budget : Budget) (change : Change) :
    bucket.apply budget change =
      ((bucket.put budget change.key (change.outcome (bucket.entries.get? change.key))).1,
        (bucket.put budget change.key (change.outcome (bucket.entries.get? change.key))).2,
        change.displaced (bucket.entries.get? change.key)) := by
  have modified (key : EntryKey) (edit : Entry → Entry) : bucket.modify budget key edit =
      ((bucket.put budget key ((bucket.entries.get? key).map edit)).1,
        (bucket.put budget key ((bucket.entries.get? key).map edit)).2, none) := by
    cases found : bucket.entries.get? key with
    | none => simp [modify, put, detach_of_get?_eq_none found]
    | some entry => simp [modify, put, detach_of_get?_eq_some found]
  cases change with
  | insert key entry => simp [apply, attach, put, Change.key, Change.outcome, Change.displaced]
  | delete key =>
    simp only [apply, put, Change.key, Change.outcome, Change.displaced]
    rw [← displaced_detach bucket budget key]
  | assign key packetId => exact modified key _
  | mark key taken => exact modified key _
  | release key packetId => simp [apply, attach, put, Change.key, Change.outcome, Change.displaced]

@[simp] theorem entries_apply (bucket : Bucket) (budget : Budget) (change : Change) :
    (bucket.apply budget change).1.entries = change.act bucket.entries := by
  rw [apply_eq, entries_put, Change.act]

theorem Indexed.apply (h : bucket.Indexed) (budget : Budget) (change : Change) :
    (bucket.apply budget change).1.Indexed := by
  rw [apply_eq]
  exact h.put budget change.key _

theorem Traced.apply (h : bucket.Traced) (agrees : bucket.Indexed) (budget : Budget)
    {change : Change} (single : (change.act bucket.entries).SingleCarriers) :
    (bucket.apply budget change).1.Traced := by
  rw [apply_eq]
  exact h.put agrees budget single

/-- What a list of changes does to a bucket. -/
theorem applyAll_frame (bucket : Bucket) (budget : Budget) (changes : List Change) :
    (bucket.applyAll budget changes).1.entries = Change.actAll bucket.entries changes ∧
      (bucket.applyAll budget changes).1.journal = bucket.journal ∧
      (bucket.applyAll budget changes).1.index = bucket.index ∧
      (bucket.applyAll budget changes).2.2 = Change.displacedAll bucket.entries changes := by
  induction changes generalizing bucket budget with
  | nil => exact ⟨rfl, rfl, rfl, rfl⟩
  | cons change changes ih =>
    have next := ih (bucket.apply budget change).1 (bucket.apply budget change).2.1
    have kept : (bucket.apply budget change).1.journal = bucket.journal ∧
        (bucket.apply budget change).1.index = bucket.index := by
      rw [apply_eq]
      exact journal_put _
    have left : (bucket.apply budget change).2.2 =
        change.displaced (bucket.entries.get? change.key) := by rw [apply_eq]
    simp only [applyAll, entries_apply, Change.actAll_cons, Change.displacedAll] at next ⊢
    exact ⟨next.1, next.2.1.trans kept.1, next.2.2.1.trans kept.2, by rw [left, next.2.2.2]⟩

end Bucket

end DeliveryQueue
