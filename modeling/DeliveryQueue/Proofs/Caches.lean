import DeliveryQueue.Proofs.Weight
import Mathlib.Data.List.Chain

/-!
Buckets that share one budget, under arbitrary changes: changes that no store would make, entries
over entries, ids that collide, journals that fail or turn into others. Whatever is done to the
buckets, what they keep beside their entries tells the truth about the entries
(`Bucket.Faithful`), between the changes of one batch too, and the budget is the weight of all
entries as long as that fits its word (`Shelf.caches_agree`).
-/
namespace DeliveryQueue

namespace Table

variable {κ α : Type} [Ord κ] [Std.TransOrd κ] [Std.LawfulEqOrd κ]

/-- The first binding is the one whose key is below all others. -/
theorem first?_eq_some_iff {t : Table κ α} {key : κ} {a : α} :
    t.first? = some (key, a) ↔
      t.get? key = some a ∧ ∀ other, (t.get? other).isSome → other ≠ key →
        compare key other = .lt := by
  obtain ⟨bindings, ascending⟩ := t
  cases bindings with
  | nil => simp [first?, get?, find?]
  | cons head rest =>
    have above := (List.pairwise_cons.mp ascending).1
    constructor
    · intro first
      obtain rfl : head = (key, a) := Option.some.inj first
      refine ⟨by simp [get?, find?], ?_⟩
      intro other bound differs
      obtain ⟨b, found⟩ := Option.isSome_iff_exists.mp bound
      rcases List.mem_cons.mp (mem_bindings_iff.mpr found) with same | member
      · exact absurd (congrArg Prod.fst same) differs
      · exact above (other, b) member
    · rintro ⟨found, least⟩
      rcases List.mem_cons.mp (mem_bindings_iff.mpr found) with same | member
      · exact congrArg some same.symm
      · have after := above (key, a) member
        have bound : ((⟨head :: rest, ascending⟩ : Table κ α).get? head.1).isSome := by
          simp [get?, find?]
        have differs : head.1 ≠ key := by
          intro same
          simp [same] at after
        have before := least head.1 bound differs
        have both := Std.TransCmp.lt_trans after before
        simp at both

end Table

theorem QueueCounts.ofClass_zero (messageClass : MessageClass) : zero.ofClass messageClass = 0 := by
  cases messageClass <;> rfl

namespace Bucket

/-- The entry at a key weighs on the QoS 0 budget. -/
def Weighs (bucket : Bucket) (key : EntryKey) : Prop :=
  ∃ entry, bucket.entries.get? key = some entry ∧ entry.qos0Bytes?.isSome

/-- What a bucket keeps beside its entries tells the truth about them. -/
structure Faithful (bucket : Bucket) : Prop where
  counts : ∀ queue messageClass, bucket.classSize queue messageClass =
    (bucket.queueEntries queue).countP fun e => e.2.messageClass = messageClass
  /-- A queue that is not counted is empty. -/
  empty : ∀ queue, bucket.counts? queue = none → bucket.queueEntries queue = []
  /-- Taking an entry out never counts below zero. -/
  covered : ∀ ⦃key entry⦄, bucket.entries.get? key = some entry →
    ∃ counts, bucket.counts? key.queue = some counts ∧ 0 < counts.ofClass entry.messageClass
  ages : ∀ key, (bucket.qos0ByAge.get? key.age).isSome ↔ bucket.Weighs key
  oldest : ∀ key, bucket.oldestQos0? = some key ↔
    bucket.Weighs key ∧ ∀ other, bucket.Weighs other → other ≠ key →
      compare key.age other.age = .lt
  holders : ∀ ⦃queue id key⦄, bucket.inFlightKey? queue id = some key → key.queue = queue ∧
    ∃ entry, bucket.entries.get? key = some entry ∧ entry.packetId? = some id

variable {bucket : Bucket}

theorem count_eq_countP (bucket : Bucket) (queue : QueueKey) (messageClass : MessageClass) :
    bucket.entries.count queue messageClass =
      (bucket.queueEntries queue).countP fun e => e.2.messageClass = messageClass := by
  simp only [Table.count, Table.total, queueEntries]
  induction bucket.entries.bindings with
  | nil => rfl
  | cons e rest ih =>
    rw [List.map_cons, List.sum_cons, ih]
    by_cases its : e.1.queue = queue
    · by_cases classed : e.2.messageClass = messageClass
      · simp [its, classed, Nat.add_comm]
      · simp [its, classed]
    · simp [its]

theorem Indexed.weighs_iff (indexed : bucket.Indexed) (key : EntryKey) :
    (bucket.qos0ByAge.get? key.age).isSome ↔ bucket.Weighs key := by
  rw [indexed.ages, Option.isSome_map, Weighs]
  cases bucket.entries.get? key <;> simp

theorem Indexed.oldest_iff (indexed : bucket.Indexed) (key : EntryKey) :
    bucket.oldestQos0? = some key ↔
      bucket.Weighs key ∧ ∀ other, bucket.Weighs other → other ≠ key →
        compare key.age other.age = .lt := by
  have first : bucket.oldestQos0? = some key ↔ bucket.qos0ByAge.first? = some (key.age, ()) := by
    rw [oldestQos0?, Option.map_eq_some_iff]
    constructor
    · rintro ⟨⟨age, _⟩, found, rfl⟩
      exact found
    · intro found
      exact ⟨_, found, rfl⟩
  rw [first, Table.first?_eq_some_iff, ← indexed.weighs_iff]
  constructor
  · rintro ⟨found, least⟩
    refine ⟨by rw [found]; rfl, ?_⟩
    intro other weighs differs
    exact least other.age ((indexed.weighs_iff other).mpr weighs) (mt EntryKey.age_inj.mp differs)
  · rintro ⟨found, least⟩
    refine ⟨Option.isSome_iff_exists.mp found |>.elim fun _ there => there, ?_⟩
    intro other bound differs
    refine least other.entryKey ((indexed.weighs_iff other.entryKey).mp bound) ?_
    rintro rfl
    exact differs rfl

/-- Agreement with the entries is all that truth takes. -/
theorem Indexed.faithful (indexed : bucket.Indexed) : bucket.Faithful where
  counts queue messageClass := by
    rw [classSize_eq, indexed.counts, count_eq_countP]
  empty queue uncounted := by
    have none : bucket.countsOf queue = .zero := by rw [countsOf, uncounted]; rfl
    apply List.eq_nil_iff_forall_not_mem.mpr
    intro e member
    obtain ⟨there, its⟩ := List.mem_filter.mp member
    have counted := pos_count_of_get? (Table.mem_bindings_iff.mp there)
    rw [of_decide_eq_true its, ← indexed.counts, none, QueueCounts.ofClass_zero] at counted
    cases counted
  covered key entry found := by
    have counted := pos_count_of_get? found
    rw [← indexed.counts, countsOf] at counted
    cases known : bucket.counts? key.queue with
    | none =>
      rw [known, Option.getD_none, QueueCounts.ofClass_zero] at counted
      cases counted
    | some counts =>
      rw [known] at counted
      exact ⟨counts, rfl, counted⟩
  ages := indexed.weighs_iff
  oldest := indexed.oldest_iff
  holders queue id key held := by
    rw [inFlightKey?_eq] at held
    obtain ⟨sequence, holds, rfl⟩ := Option.map_eq_some_iff.mp held
    exact ⟨rfl, indexed.holders holds⟩

/-- The states that a bucket goes through as changes are applied to it, the one before the first of
them and the one after the last included. -/
def course (bucket : Bucket) (budget : Budget) : List Change → List (Bucket × Budget)
  | [] => [(bucket, budget)]
  | change :: changes =>
    (bucket, budget) ::
      course (bucket.apply budget change).1 (bucket.apply budget change).2.1 changes

theorem head?_course (bucket : Bucket) (budget : Budget) (changes : List Change) :
    (bucket.course budget changes).head? = some (bucket, budget) := by
  cases changes <;> rfl

theorem getLast?_course (bucket : Bucket) (budget : Budget) (changes : List Change) :
    (bucket.course budget changes).getLast? =
      some ((bucket.applyAll budget changes).1, (bucket.applyAll budget changes).2.1) := by
  induction changes generalizing bucket budget with
  | nil => rfl
  | cons change changes ih =>
    rw [course, List.getLast?_cons, ih]
    rfl

end Bucket

/-- The changes in batches, up to the first batch that cannot be read. -/
def Batch.readable : List Bytes → List Change
  | [] => []
  | batch :: batches =>
    match decode batch with
    | .ok changes => changes ++ readable batches
    | .error _ => []

/-- Buckets that share a budget and a disk. -/
structure Shelf where
  buckets : Array Bucket
  budget : Budget
  disk : Disk

/-- What is done to one bucket of a shelf. -/
inductive Deed
  | commit (changes : List Change)
  | recover
  | forget
  /-- The journal and the disk turn into others: they begin to fail, or to work again. -/
  | turn (journal : Journal) (disk : Disk)

namespace Shelf

/-- Fresh buckets over some journals, and a budget that is not used yet. -/
def fresh (journals : List Journal) (limit : UInt64) (disk : Disk) : Shelf :=
  ⟨(journals.mapIdx Bucket.ofJournal).toArray, .ofLimit limit, disk⟩

/-- The shelf with another bucket in a place. -/
def place (shelf : Shelf) (index : Nat) (bucket : Bucket) (budget : Budget) (disk : Disk) : Shelf :=
  ⟨shelf.buckets.setIfInBounds index bucket, budget, disk⟩

def step (shelf : Shelf) (index : Nat) (deed : Deed) : Shelf :=
  match shelf.buckets[index]? with
  | none => shelf
  | some bucket =>
    match deed with
    | .commit changes =>
      let done := bucket.commit shelf.budget shelf.disk changes
      shelf.place index done.bucket done.budget done.disk
    | .recover =>
      let done := bucket.recover shelf.budget shelf.disk
      shelf.place index done.bucket done.budget done.disk
    | .forget => shelf.place index bucket.forgetEmptyQueues shelf.budget shelf.disk
    | .turn journal disk => shelf.place index { bucket with journal } shelf.budget disk

def run (shelf : Shelf) (deeds : List (Nat × Deed)) : Shelf :=
  deeds.foldl (fun shelf deed => shelf.step deed.1 deed.2) shelf

/-- The states that a shelf goes through in one step, each single change on its own. -/
def moments (shelf : Shelf) (index : Nat) (deed : Deed) : List Shelf :=
  let applying (bucket : Bucket) (disk : Disk) (changes : List Change) : List Shelf :=
    (bucket.course shelf.budget changes).map fun moment =>
      shelf.place index moment.1 moment.2 disk
  match shelf.buckets[index]?, deed with
  | some bucket, .commit changes =>
    let done := bucket.commit shelf.budget shelf.disk changes
    match done.answer with
    | .ok _ => applying { bucket with journal := done.bucket.journal } done.disk changes
    | .error _ => [shelf.step index deed]
  | some bucket, .recover =>
    let read := bucket.journal.replay shelf.disk
    match read.answer with
    | .ok batches =>
      applying { bucket with journal := read.journal } read.disk (Batch.readable batches)
    | .error _ => [shelf.step index deed]
  | _, _ => [shelf.step index deed]

/-- The states that a shelf goes through, from the first on. -/
def visits (shelf : Shelf) : List (Nat × Deed) → List Shelf
  | [] => [shelf]
  | (index, deed) :: deeds =>
    shelf :: shelf.moments index deed ++ (shelf.step index deed).visits deeds

/-- What all entries weigh against the budget. -/
def weight (shelf : Shelf) : Nat :=
  (shelf.buckets.toList.map fun bucket => bucket.entries.weight).sum

/-- No entry changes, or a single change is applied to one bucket. -/
inductive Nudge (shelf : Shelf) : Shelf → Prop
  | stay : Nudge shelf shelf
  | beside {index : Nat} {bucket other : Bucket} (found : shelf.buckets[index]? = some bucket)
      (entries : other.entries = bucket.entries) (indexed : bucket.Indexed → other.Indexed)
      (disk : Disk) : Nudge shelf (shelf.place index other shelf.budget disk)
  | apply {index : Nat} {bucket : Bucket} (found : shelf.buckets[index]? = some bucket)
      (change : Change) : Nudge shelf (shelf.place index (bucket.apply shelf.budget change).1
        (bucket.apply shelf.budget change).2.1 shelf.disk)

variable {shelf after : Shelf} {index : Nat} {bucket : Bucket}

theorem getElem?_place (found : shelf.buckets[index]? = some bucket) (new : Bucket)
    (budget : Budget) (disk : Disk) :
    (shelf.place index new budget disk).buckets[index]? = some new :=
  Array.getElem?_setIfInBounds_self_of_lt (Array.getElem?_eq_some_iff.mp found).1

theorem place_place (shelf : Shelf) (index : Nat) (first second : Bucket) (before budget : Budget)
    (disk place : Disk) : (shelf.place index first before disk).place index second budget place =
      shelf.place index second budget place := by
  simp [Shelf.place]

theorem nudge_journal (found : shelf.buckets[index]? = some bucket) (journal : Journal)
    (disk : Disk) :
    shelf.Nudge (shelf.place index { bucket with journal } shelf.budget disk) := by
  have same : { bucket with journal }.entries = bucket.entries := rfl
  have indexed (before : bucket.Indexed) : { bucket with journal }.Indexed :=
    ⟨before.counts, before.ages, before.holders⟩
  exact .beside found same indexed disk

/-- Applying changes to a bucket nudges the shelf once for each change. -/
theorem isChain_course (found : shelf.buckets[index]? = some bucket) (start : Bucket)
    (budget : Budget) (disk : Disk) (changes : List Change) :
    ((start.course budget changes).map fun moment =>
      shelf.place index moment.1 moment.2 disk).IsChain Nudge := by
  induction changes generalizing start budget with
  | nil => exact .singleton _
  | cons change changes ih =>
    rw [Bucket.course, List.map_cons, List.isChain_cons]
    refine ⟨?_, ih _ _⟩
    intro next first
    rw [List.head?_map, Bucket.head?_course] at first
    cases first
    have nudge := Nudge.apply (getElem?_place found start budget disk) change
    rwa [place_place] at nudge

/-- A commit replaces the journal, and applies the changes if it succeeds. -/
theorem commit_bucket (bucket : Bucket) (budget : Budget) (disk : Disk) (changes : List Change) :
    let done := bucket.commit budget disk changes
    let before := { bucket with journal := done.bucket.journal }
    match done.answer with
    | .ok _ => done.bucket = (before.applyAll budget changes).1 ∧
        done.budget = (before.applyAll budget changes).2.1
    | .error _ => done.bucket = before ∧ done.budget = budget := by
  by_cases idle : changes = []
  · subst idle
    exact ⟨rfl, rfl⟩
  · have busy : changes.isEmpty = false := by simpa using idle
    cases encoded : Batch.encode changes with
    | error fault => simp [Bucket.commit, busy, encoded]
    | ok batch =>
      cases written : (bucket.journal.append disk batch).answer with
      | error fault => simp [Bucket.commit, busy, encoded, written]
      | ok =>
        have frame := Bucket.applyAll_frame
          { bucket with journal := (bucket.journal.append disk batch).journal } budget changes
        simp [Bucket.commit, busy, encoded, written, frame.2.1]

theorem replayBatches_readable (bucket : Bucket) (budget : Budget) (top : Option UInt64)
    (batches : List Bytes) :
    (bucket.replayBatches budget top batches).2 =
      ((bucket.applyAll budget (Batch.readable batches)).1,
        (bucket.applyAll budget (Batch.readable batches)).2.1) := by
  induction batches generalizing bucket budget top with
  | nil => rfl
  | cons batch batches ih =>
    unfold Bucket.replayBatches Batch.readable
    cases Batch.decode batch with
    | error fault => rfl
    | ok changes =>
      have joined := Bucket.applyAll_append bucket budget changes (Batch.readable batches)
      dsimp only
      rw [ih, joined.1, joined.2]

/-- Recovery applies the changes of the batches that can be read. -/
theorem recover_bucket (bucket : Bucket) (budget : Budget) (disk : Disk) :
    let read := bucket.journal.replay disk
    let done := bucket.recover budget disk
    let before := { bucket with journal := read.journal }
    done.disk = read.disk ∧
      match read.answer with
      | .ok batches => done.bucket = (before.applyAll budget (Batch.readable batches)).1 ∧
          done.budget = (before.applyAll budget (Batch.readable batches)).2.1
      | .error _ => done.bucket = before ∧ done.budget = budget := by
  simp only [Bucket.recover]
  cases (bucket.journal.replay disk).answer with
  | error fault => exact ⟨rfl, rfl, rfl⟩
  | ok batches =>
    have replayed := replayBatches_readable
      { bucket with journal := (bucket.journal.replay disk).journal } budget none batches
    exact ⟨rfl, congrArg Prod.fst replayed, congrArg Prod.snd replayed⟩

theorem isChain_moments (shelf : Shelf) (index : Nat) (deed : Deed) :
    (shelf :: shelf.moments index deed).IsChain Nudge ∧
      (shelf.moments index deed).getLast? = some (shelf.step index deed) := by
  -- a step without changes is one nudge
  have once {next : Shelf} (nudge : shelf.Nudge next) :
      [shelf, next].IsChain Nudge ∧ [next].getLast? = some next :=
    ⟨.cons_cons nudge (.singleton _), rfl⟩
  cases found : shelf.buckets[index]? with
  | none =>
    have same : shelf.step index deed = shelf := by simp [step, found]
    simp only [moments, found, same]
    exact once .stay
  | some bucket =>
    -- changes behind another journal are one nudge for the journal and one for each change
    have many (journal : Journal) (disk : Disk) (changes : List Change) :
        (shelf :: ({ bucket with journal }.course shelf.budget changes).map
          fun moment : Bucket × Budget => shelf.place index moment.1 moment.2 disk).IsChain
            Nudge := by
      rw [List.isChain_cons]
      refine ⟨?_, isChain_course found _ _ _ _⟩
      intro next first
      rw [List.head?_map, Bucket.head?_course] at first
      cases first
      exact nudge_journal found journal disk
    cases deed with
    | commit changes =>
      have committed := commit_bucket bucket shelf.budget shelf.disk changes
      simp only [moments, found, step]
      generalize bucket.commit shelf.budget shelf.disk changes = done at committed
      obtain ⟨answer, after, left, disk⟩ := done
      cases answer with
      | ok displaced =>
        obtain ⟨reached, used⟩ := committed
        refine ⟨many _ _ _, ?_⟩
        rw [List.getLast?_map, Bucket.getLast?_course, ← reached, ← used]
        rfl
      | error rejection =>
        obtain ⟨same, unused⟩ := committed
        dsimp only at same unused ⊢
        rw [same, unused]
        exact once (nudge_journal found _ disk)
    | recover =>
      have recovered := recover_bucket bucket shelf.budget shelf.disk
      simp only [moments, found, step]
      generalize bucket.recover shelf.budget shelf.disk = done at recovered
      generalize bucket.journal.replay shelf.disk = read at recovered
      obtain ⟨_, after, left, disk⟩ := done
      obtain ⟨answer, journal, others⟩ := read
      obtain ⟨same, recovered⟩ := recovered
      dsimp only at same
      subst same
      cases answer with
      | ok batches =>
        obtain ⟨reached, used⟩ := recovered
        refine ⟨many _ _ _, ?_⟩
        rw [List.getLast?_map, Bucket.getLast?_course, ← reached, ← used]
        rfl
      | error fault =>
        obtain ⟨same, unused⟩ := recovered
        dsimp only at same unused ⊢
        rw [same, unused]
        exact once (nudge_journal found journal disk)
    | forget =>
      have same : bucket.forgetEmptyQueues.entries = bucket.entries := rfl
      simp only [moments, found, step]
      exact once (.beside found same Bucket.Indexed.forgetEmptyQueues _)
    | turn journal disk =>
      simp only [moments, found, step]
      exact once (nudge_journal found journal disk)

theorem head?_visits (shelf : Shelf) (deeds : List (Nat × Deed)) :
    (shelf.visits deeds).head? = some shelf := by
  cases deeds <;> rfl

theorem isChain_visits (shelf : Shelf) (deeds : List (Nat × Deed)) :
    (shelf.visits deeds).IsChain Nudge := by
  induction deeds generalizing shelf with
  | nil => exact .singleton _
  | cons deed deeds ih =>
    obtain ⟨chain, last⟩ := isChain_moments shelf deed.1 deed.2
    refine chain.append (ih (shelf.step deed.1 deed.2)) ?_
    intro before left after right
    rw [List.getLast?_cons, last] at left
    rw [head?_visits] at right
    cases left
    cases right
    exact .stay

theorem getLast?_visits (shelf : Shelf) (deeds : List (Nat × Deed)) :
    (shelf.visits deeds).getLast? = some (shelf.run deeds) := by
  induction deeds generalizing shelf with
  | nil => rfl
  | cons deed deeds ih =>
    rw [visits, List.getLast?_append, ih]
    rfl

/-- All buckets agree with their entries. -/
def Indexed (shelf : Shelf) : Prop :=
  ∀ ⦃index : Nat⦄ ⦃bucket : Bucket⦄, shelf.buckets[index]? = some bucket → bucket.Indexed

theorem Nudge.indexed (nudge : shelf.Nudge after) (indexed : shelf.Indexed) : after.Indexed := by
  cases nudge with
  | stay => exact indexed
  | beside found entries agrees disk => exact Store.forall_set indexed (agrees (indexed found))
  | apply found change => exact Store.forall_set indexed ((indexed found).apply shelf.budget change)

/-- The budget is what the entries weigh. -/
def Exact (shelf : Shelf) : Prop := shelf.budget.used.toNat = shelf.weight

theorem weight_place (found : shelf.buckets[index]? = some bucket) (new : Bucket) (budget : Budget)
    (disk : Disk) :
    (shelf.place index new budget disk).weight + bucket.entries.weight =
      shelf.weight + new.entries.weight := by
  simp only [weight, place, Array.toList_setIfInBounds]
  exact Store.sum_map_set (by rwa [Array.getElem?_toList]) new fun bucket => bucket.entries.weight

/-- The budget follows each nudge as long as the entries do not weigh too much afterwards. -/
theorem Nudge.exact (nudge : shelf.Nudge after) (exact : shelf.Exact)
    (light : after.weight < 2 ^ 64) : after.Exact := by
  cases nudge with
  | stay => exact exact
  | @beside index bucket other found entries indexed disk =>
    have trade := weight_place found other shelf.budget disk
    rw [entries] at trade
    have same : shelf.budget.used.toNat = shelf.weight := exact
    change shelf.budget.used.toNat = _
    omega
  | @apply index bucket found change =>
    have trade := weight_place found (bucket.apply shelf.budget change).1
      (bucket.apply shelf.budget change).2.1 shelf.disk
    rw [Bucket.entries_apply] at trade
    have part : bucket.entries.weight ≤ shelf.weight :=
      List.le_sum_of_mem (List.mem_map_of_mem
        (List.mem_of_getElem? (by rwa [Array.getElem?_toList])))
    -- the budget is the weight of this bucket and that of all others
    have split : shelf.budget.used.toNat =
        shelf.weight - bucket.entries.weight + bucket.entries.weight := by
      have same : shelf.budget.used.toNat = shelf.weight := exact
      omega
    have room : shelf.weight - bucket.entries.weight + (change.act bucket.entries).weight <
        UInt64.size := by
      have size : UInt64.size = 2 ^ 64 := rfl
      omega
    have used := Bucket.used_put split room
    rw [← Change.act] at used
    change (bucket.apply shelf.budget change).2.1.used.toNat = _
    rw [Bucket.apply_eq] at trade ⊢
    dsimp only at trade ⊢
    omega

theorem indexed_of_mem {shelves : List Shelf} (chain : shelves.IsChain Nudge)
    (first : ∀ shelf, shelves.head? = some shelf → shelf.Indexed) :
    ∀ shelf ∈ shelves, shelf.Indexed := by
  induction shelves with
  | nil => simp
  | cons shelf shelves ih =>
    obtain ⟨nudged, chain⟩ := List.isChain_cons.mp chain
    have here := first shelf rfl
    refine List.forall_mem_cons.mpr ⟨here, ih chain ?_⟩
    intro next head
    exact (nudged next head).indexed here

theorem exact_of_mem {shelves : List Shelf} (chain : shelves.IsChain Nudge)
    (first : ∀ shelf, shelves.head? = some shelf → shelf.Exact)
    (light : ∀ shelf ∈ shelves, shelf.weight < 2 ^ 64) : ∀ shelf ∈ shelves, shelf.Exact := by
  induction shelves with
  | nil => simp
  | cons shelf shelves ih =>
    obtain ⟨nudged, chain⟩ := List.isChain_cons.mp chain
    obtain ⟨_, light⟩ := List.forall_mem_cons.mp light
    have here := first shelf rfl
    refine List.forall_mem_cons.mpr ⟨here, ih chain ?_ light⟩
    intro next head
    exact (nudged next head).exact here (light next (List.mem_of_head? head))

theorem getElem?_fresh {journals : List Journal} {limit : UInt64} {disk : Disk}
    (found : (fresh journals limit disk).buckets[index]? = some bucket) :
    ∃ journal, bucket = .ofJournal index journal := by
  rw [fresh, List.getElem?_toArray, List.getElem?_mapIdx] at found
  obtain ⟨journal, _, rfl⟩ := Option.map_eq_some_iff.mp found
  exact ⟨journal, rfl⟩

theorem fresh_indexed (journals : List Journal) (limit : UInt64) (disk : Disk) :
    (fresh journals limit disk).Indexed := by
  intro index bucket found
  obtain ⟨journal, rfl⟩ := getElem?_fresh found
  exact Bucket.indexed_ofJournal index journal

theorem fresh_exact (journals : List Journal) (limit : UInt64) (disk : Disk) :
    (fresh journals limit disk).Exact := by
  have weightless : ∀ n ∈ (fresh journals limit disk).buckets.toList.map
      (fun bucket => bucket.entries.weight), n = 0 := by
    intro n member
    obtain ⟨bucket, there, rfl⟩ := List.mem_map.mp member
    obtain ⟨index, found⟩ := List.mem_iff_getElem?.mp there
    obtain ⟨journal, rfl⟩ := getElem?_fresh (by rwa [Array.getElem?_toList] at found)
    rfl
  exact (List.sum_eq_zero weightless).symm

/-- Whatever is done to buckets that share a budget, all of them are faithful to their entries all
the time, and the budget is what the entries weigh as long as that fits a word. -/
theorem caches_agree (journals : List Journal) (limit : UInt64) (disk : Disk)
    (deeds : List (Nat × Deed)) :
    let visited := (fresh journals limit disk).visits deeds
    visited.getLast? = some ((fresh journals limit disk).run deeds) ∧
      (∀ shelf ∈ visited, ∀ bucket ∈ shelf.buckets, bucket.Faithful) ∧
      ∀ front, front <+: visited → (∀ shelf ∈ front, shelf.weight < 2 ^ 64) →
        ∀ shelf ∈ front, shelf.budget.used.toNat = shelf.weight := by
  intro visited
  have chain := isChain_visits (fresh journals limit disk) deeds
  have head := head?_visits (fresh journals limit disk) deeds
  refine ⟨getLast?_visits _ deeds, ?_, ?_⟩
  · intro shelf member bucket inside
    have indexed : ∀ shelf ∈ visited, shelf.Indexed := by
      refine indexed_of_mem chain ?_
      intro first begins
      cases head.symm.trans begins
      exact fresh_indexed journals limit disk
    obtain ⟨index, found⟩ := Array.mem_iff_getElem?.mp inside
    exact (indexed shelf member found).faithful
  · intro front first light
    have part := chain.prefix first
    refine exact_of_mem part ?_ light
    intro shelf begins
    obtain ⟨rest, whole⟩ := first
    have same : visited.head? = some shelf := by
      rw [← whole, List.head?_append, begins, Option.some_or]
    cases head.symm.trans same
    exact fresh_exact journals limit disk

/-- A waiting message with its place in the queue of one client. -/
def waiting (sequence : UInt64) (qos : Qos) (uniqueId : String) : EntryKey × Entry :=
  (⟨.client, sequence⟩, .publish (.ofPublish (.ofQos qos uniqueId 1)))

/-- One journal is empty, the other brings in a message. -/
def sampleJournals : List Journal :=
  let batches := [Batch.bytes [.insert (waiting 4 .atMostOnce "u4").1
    (waiting 4 .atMostOnce "u4").2]]
  [.memory .empty, .memory { MemoryJournal.empty with batches }]

/-- A message arrives over another, an id goes to a PUBREL and to a message as well, what is missing
is released, marked and deleted, and a journal fails. -/
def sample : List (Nat × Deed) :=
  let first := waiting 1 .atMostOnce "u1"
  let other := waiting 1 .atMostOnce "u2"
  let acknowledged := waiting 2 .exactlyOnce "u3"
  [(1, .recover),
    (0, .commit [.insert first.1 first.2, .insert other.1 other.2,
      .insert acknowledged.1 acknowledged.2, .release ⟨.client, 3⟩ 7,
      .assign acknowledged.1 (some 7)]),
    (1, .commit [.mark ⟨.client, 4⟩ true, .delete ⟨.client, 9⟩]),
    (0, .turn (.memory { MemoryJournal.empty with failAppends := true }) .empty),
    (0, .commit [.delete first.1]),
    (1, .forget)]

theorem caches_agree_sample :
    let visited := (fresh sampleJournals 1000 .empty).visits sample
    (∀ shelf ∈ visited, shelf.weight < 2 ^ 64) ∧
      ∀ shelf ∈ visited, shelf.budget.used.toNat = shelf.weight := by
  have light : ∀ shelf ∈ (fresh sampleJournals 1000 .empty).visits sample,
      shelf.weight < 2 ^ 64 := by decide +kernel
  have agree := caches_agree sampleJournals 1000 .empty sample
  exact ⟨light, agree.2.2 _ List.prefix_rfl light⟩

end Shelf

end DeliveryQueue
