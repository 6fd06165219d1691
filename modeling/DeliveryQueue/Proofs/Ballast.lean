import DeliveryQueue.Proofs.Carrying
import DeliveryQueue.Proofs.Contents

/-!
What weighs on the budget of a store: its messages of QoS 0, over all buckets, from the oldest on
(`Store.Ranked`). The oldest entry that the store looks up is the first of them.
-/
namespace DeliveryQueue

open Std

/-- A message of QoS 0 at its place in a store. -/
structure Ballast where
  index : Nat
  key : EntryKey
  message : StoredPublish
  deriving DecidableEq

namespace Ballast

variable {a b : Ballast}

/-- By sequence number; among equal ones, by bucket and then by queue. -/
def compareAge : Ballast → Ballast → Ordering :=
  compareLex (compareOn fun b => b.key.sequence)
    (compareLex (compareOn index) (compareOn fun b => b.key.queue))

instance : TransCmp compareAge :=
  inferInstanceAs (TransCmp (compareLex _ (compareLex _ _)))

theorem compareAge_eq_lt : compareAge a b = .lt ↔ a.key.sequence < b.key.sequence ∨
    a.key.sequence = b.key.sequence ∧ (a.index < b.index ∨
      a.index = b.index ∧ compare a.key.queue b.key.queue = .lt) := by
  simp [compareAge, compareLex, compareOn, Ordering.then_eq_lt, compare_eq_lt]

theorem compareAge_eq_eq : compareAge a b = .eq ↔ a.index = b.index ∧ a.key = b.key := by
  obtain ⟨_, ⟨_, _⟩, _⟩ := a
  obtain ⟨_, ⟨_, _⟩, _⟩ := b
  simp [compareAge, compareLex, compareOn, Ordering.then_eq_eq]
  tauto

/-- A younger message stands in another place. -/
theorem apart_of_lt (before : a.compareAge b = .lt) : ¬ (b.index = a.index ∧ b.key = a.key) := by
  rintro ⟨index, key⟩
  have equal := compareAge_eq_eq.mpr ⟨index.symm, key.symm⟩
  cases equal.symm.trans before

/-- The bytes of some messages together. -/
def bytes (line : List Ballast) : Nat := (line.map fun b => b.message.size.toNat).sum

end Ballast

theorem EntryKey.compare_age_eq_lt {a b : EntryKey} : compare a.age b.age = .lt ↔
    a.sequence < b.sequence ∨ a.sequence = b.sequence ∧ compare a.queue b.queue = .lt := by
  simp [AgeKey.compare_def, compareLex, compareOn, age, Ordering.then_eq_lt, compare_eq_lt]

/-- The message of QoS 0 in the entry, if it holds one. -/
def Entry.qos0? : Entry → Option StoredPublish
  | publish stored => if stored.qos = .atMostOnce then some stored else none
  | _ => none

theorem Entry.qos0Bytes?_eq (entry : Entry) :
    entry.qos0Bytes? = entry.qos0?.map StoredPublish.size := by
  cases entry with
  | pubrel | taken => rfl
  | publish stored => by_cases once : stored.qos = .atMostOnce <;> simp [qos0Bytes?, qos0?, once]

theorem Entry.qos0?_eq_some {entry : Entry} {stored : StoredPublish} :
    entry.qos0? = some stored ↔ entry = .publish stored ∧ stored.qos = .atMostOnce := by
  cases entry with
  | pubrel | taken => simp [qos0?]
  | publish other =>
    rw [qos0?]
    split
    · rename_i once
      constructor
      · rintro ⟨⟩
        exact ⟨rfl, once⟩
      · rintro ⟨⟨⟩, _⟩
        rfl
    · rename_i acknowledged
      simp only [reduceCtorEq, publish.injEq, false_iff, not_and]
      rintro rfl
      exact acknowledged

namespace Bucket

variable {bucket : Bucket} {index : Nat} {b : Ballast}

/-- What weighs in a bucket, in the order of the entries. -/
def ballast (bucket : Bucket) (index : Nat) : List Ballast :=
  bucket.entries.bindings.filterMap fun e => e.2.qos0?.map fun stored => ⟨index, e.1, stored⟩

theorem mem_ballast : b ∈ bucket.ballast index ↔
    b.index = index ∧ bucket.entries.get? b.key = some (.publish b.message) ∧
      b.message.qos = .atMostOnce := by
  simp only [ballast, List.mem_filterMap, Option.map_eq_some_iff, Entry.qos0?_eq_some]
  constructor
  · rintro ⟨e, there, stored, ⟨its, once⟩, rfl⟩
    exact ⟨rfl, its ▸ Table.mem_bindings_iff.mp there, once⟩
  · rintro ⟨rfl, there, once⟩
    exact ⟨(b.key, .publish b.message), Table.mem_bindings_iff.mpr there, b.message,
      ⟨rfl, once⟩, rfl⟩

theorem bytes_ballast (bucket : Bucket) (index : Nat) :
    Ballast.bytes (bucket.ballast index) = bucket.entries.weight := by
  rw [Table.weight, Table.total, ballast, Ballast.bytes]
  induction bucket.entries.bindings with
  | nil => rfl
  | cons e rest ih =>
    rw [List.map_cons, List.sum_cons, ← ih, Entry.weight, Entry.qos0Bytes?_eq]
    cases its : e.2.qos0? <;> simp [its]

theorem keys_ballast_nodup (bucket : Bucket) (index : Nat) :
    ((bucket.ballast index).map Ballast.key).Nodup := by
  have keys : (bucket.ballast index).map Ballast.key =
      (bucket.entries.bindings.filter fun e => e.2.qos0?.isSome).map Prod.fst := by
    rw [ballast]
    induction bucket.entries.bindings with
    | nil => rfl
    | cons e rest ih => cases its : e.2.qos0? <;> simp [its, ih]
  rw [keys]
  exact bucket.entries.nodup_keys.sublist (List.filter_sublist.map _)

theorem Indexed.exists_oldest (indexed : bucket.Indexed) {key : EntryKey}
    (weighs : bucket.Weighs key) : ∃ first, bucket.oldestQos0? = some first := by
  obtain ⟨_, found⟩ := Option.isSome_iff_exists.mp ((indexed.weighs_iff key).mpr weighs)
  have listed := Table.mem_bindings_iff.mpr found
  cases all : bucket.qos0ByAge.bindings with
  | nil => simp [all] at listed
  | cons e rest => exact ⟨e.1.entryKey, by simp [oldestQos0?, Table.first?, all]⟩

/-- What is looked up as the oldest of a bucket is as old as any message there. -/
theorem Indexed.oldest_le (indexed : bucket.Indexed) {first key : EntryKey}
    (least : bucket.oldestQos0? = some first) (weighs : bucket.Weighs key) :
    first = key ∨ compare first.age key.age = .lt := by
  by_cases same : key = first
  · exact .inl same.symm
  · exact .inr (((indexed.oldest_iff first).mp least).2 key weighs same)

/-- The index by age has an entry for each message that weighs. -/
theorem Indexed.length_ballast_le (indexed : bucket.Indexed) (index : Nat) :
    (bucket.ballast index).length ≤ bucket.qos0ByAge.size := by
  have apart : (((bucket.ballast index).map Ballast.key).map EntryKey.age).Nodup :=
    (bucket.keys_ballast_nodup index).map fun _ _ same => EntryKey.age_inj.mp same
  have inside : ((bucket.ballast index).map Ballast.key).map EntryKey.age ⊆
      bucket.qos0ByAge.keys := by
    intro age member
    obtain ⟨_, listed, rfl⟩ := List.mem_map.mp member
    obtain ⟨b, there, rfl⟩ := List.mem_map.mp listed
    obtain ⟨_, stored, once⟩ := mem_ballast.mp there
    have weighs : bucket.Weighs b.key := ⟨_, stored, by simp [Entry.qos0Bytes?, once]⟩
    obtain ⟨_, found⟩ := Option.isSome_iff_exists.mp ((indexed.weighs_iff b.key).mpr weighs)
    exact List.mem_map_of_mem (Table.mem_bindings_iff.mpr found)
  have shorter := (apart.subperm inside).length_le
  rwa [List.length_map, List.length_map, Table.keys, List.length_map] at shorter

end Bucket

namespace Store

variable {store after : Store} {line rest : List Ballast} {b : Ballast}

/-- The message of QoS 0 is stored at its place. -/
def Bears (store : Store) (b : Ballast) : Prop :=
  store.entryAt b.index b.key = some (.publish b.message) ∧ b.message.qos = .atMostOnce

/-- All messages of QoS 0 that are stored, from the oldest on. -/
structure Ranked (store : Store) (line : List Ballast) : Prop where
  all : ∀ b, b ∈ line ↔ store.Bears b
  ascending : line.Pairwise fun a b => a.compareAge b = .lt

/-- What weighs in a store, bucket by bucket. -/
def ballast (store : Store) : List Ballast :=
  store.buckets.toList.zipIdx.flatMap fun e => e.1.ballast e.2

theorem mem_ballast : b ∈ store.ballast ↔ store.Bears b := by
  simp only [ballast, List.mem_flatMap, Bucket.mem_ballast, List.mem_zipIdx_iff_getElem?,
    Array.getElem?_toList]
  constructor
  · rintro ⟨⟨bucket, index⟩, found, rfl, stored, once⟩
    exact ⟨(entryAt_of_getElem? found b.key).trans stored, once⟩
  · rintro ⟨stored, once⟩
    cases found : store.buckets[b.index]? with
    | none => simp [entryAt, contents, found] at stored
    | some bucket =>
      exact ⟨(bucket, b.index), found, rfl, entryAt_of_getElem? found b.key ▸ stored, once⟩

theorem bytes_ballast (store : Store) : Ballast.bytes store.ballast = store.qos0Bytes := by
  have parts (buckets : List Bucket) (index : Nat) :
      Ballast.bytes ((buckets.zipIdx index).flatMap fun e => e.1.ballast e.2) =
        (buckets.map fun bucket => bucket.entries.weight).sum := by
    induction buckets generalizing index with
    | nil => rfl
    | cons bucket buckets ih =>
      have first := bucket.bytes_ballast index
      have others := ih (index + 1)
      simp only [Ballast.bytes, List.zipIdx_cons, List.flatMap_cons, List.map_append,
        List.sum_append, List.map_cons, List.sum_cons] at first others ⊢
      rw [first, others]
  exact parts store.buckets.toList 0

theorem length_ballast_le (indexed : ∀ bucket ∈ store.buckets.toList, bucket.Indexed) :
    store.ballast.length ≤ store.qos0Count := by
  have parts (buckets : List Bucket) (index : Nat) (all : ∀ bucket ∈ buckets, bucket.Indexed) :
      ((buckets.zipIdx index).flatMap fun e => e.1.ballast e.2).length ≤
        buckets.foldr (fun bucket count => bucket.qos0ByAge.size + count) 0 := by
    induction buckets generalizing index with
    | nil => exact Nat.le_refl 0
    | cons bucket buckets ih =>
      obtain ⟨its, others⟩ := List.forall_mem_cons.mp all
      rw [List.zipIdx_cons, List.flatMap_cons, List.length_append, List.foldr_cons]
      exact Nat.add_le_add (its.length_ballast_le index) (ih (index + 1) others)
  rw [qos0Count, ← Array.foldr_toList]
  exact parts _ 0 indexed

/-- No two messages stand at one place. -/
theorem eq_of_compareAge_eq_eq {a b : Ballast} (first : store.Bears a) (second : store.Bears b)
    (same : a.compareAge b = .eq) : a = b := by
  obtain ⟨_, _, message⟩ := a
  obtain ⟨_, _, other⟩ := b
  obtain ⟨rfl, rfl⟩ := Ballast.compareAge_eq_eq.mp same
  have equal := first.1.symm.trans second.1
  cases equal
  rfl

theorem ballast_nodup (store : Store) : store.ballast.Nodup := by
  have parts (buckets : List Bucket) (index : Nat) :
      ((buckets.zipIdx index).flatMap fun e => e.1.ballast e.2).Nodup ∧
        ∀ b ∈ (buckets.zipIdx index).flatMap fun e => e.1.ballast e.2, index ≤ b.index := by
    induction buckets generalizing index with
    | nil => simp
    | cons bucket buckets ih =>
      obtain ⟨others, later⟩ := ih (index + 1)
      simp only [List.zipIdx_cons, List.flatMap_cons]
      have here : ∀ b ∈ bucket.ballast index, b.index = index :=
        fun b member => (Bucket.mem_ballast.mp member).1
      constructor
      · refine List.nodup_append'.mpr
          ⟨(bucket.keys_ballast_nodup index).of_map _, others, ?_⟩
        intro b first second
        have := here b first
        have := later b second
        omega
      · intro b member
        rcases List.mem_append.mp member with first | second
        · exact Nat.le_of_eq (here b first).symm
        · exact Nat.le_of_succ_le (later b second)
  exact (parts store.buckets.toList 0).1

/-- A store has its messages of QoS 0 in an order. -/
theorem exists_ranked (store : Store) :
    ∃ line, store.Ranked line ∧ line.Perm store.ballast := by
  have sorted : (store.ballast.mergeSort fun a b => (a.compareAge b).isLE).Pairwise
      fun a b => (a.compareAge b).isLE = true :=
    List.pairwise_mergeSort (fun _ _ _ => TransCmp.isLE_trans)
      (fun a b => by cases order : a.compareAge b <;> simp_all [OrientedCmp.gt_iff_lt])
      store.ballast
  have perm := List.mergeSort_perm store.ballast fun a b => (a.compareAge b).isLE
  refine ⟨_, ⟨fun b => perm.mem_iff.trans mem_ballast, ?_⟩, perm⟩
  have apart := perm.nodup_iff.mpr store.ballast_nodup
  refine (sorted.and apart).imp_of_mem ?_
  rintro a b first second ⟨before, differs⟩
  cases order : a.compareAge b with
  | lt => rfl
  | eq => exact absurd (eq_of_compareAge_eq_eq (mem_ballast.mp (perm.mem_iff.mp first))
      (mem_ballast.mp (perm.mem_iff.mp second)) order) differs
  | gt => simp [order] at before

/-! The oldest -/

theorem oldestQos0From_isSome (base : Nat) {i : Nat} {buckets : List Bucket} {bucket : Bucket}
    {key : EntryKey} (found : buckets[i]? = some bucket) (first : bucket.oldestQos0? = some key) :
    (oldestQos0From base buckets).isSome = true := by
  induction buckets generalizing base i with
  | nil => cases found
  | cons head buckets ih =>
    have others (j : Nat) (there : buckets[j]? = some bucket) :
        (oldestQos0From (base + 1) buckets).isSome = true := ih (base + 1) there
    unfold oldestQos0From
    cases i with
    | zero =>
      obtain rfl : head = bucket := by simpa using found
      rw [first]
      cases oldestQos0From (base + 1) buckets with
      | none => rfl
      | some later => dsimp only; split <;> rfl
    | succ i =>
      obtain ⟨later, some⟩ := Option.isSome_iff_exists.mp (others i (by simpa using found))
      rw [some]
      cases head.oldestQos0? with
      | none => rfl
      | some key => dsimp only; split <;> rfl

/-- The oldest of all is at least as old as the oldest of each bucket; among equal numbers, the
lower bucket counts as older. -/
theorem oldestQos0From_least {base index i : Nat} {buckets : List Bucket} {key other : EntryKey}
    {bucket : Bucket} (oldest : oldestQos0From base buckets = some (index, key))
    (found : buckets[i]? = some bucket) (first : bucket.oldestQos0? = some other) :
    key.sequence < other.sequence ∨ key.sequence = other.sequence ∧ index ≤ base + i := by
  induction buckets generalizing base index key i with
  | nil => cases found
  | cons head buckets ih =>
    unfold oldestQos0From at oldest
    cases i with
    | zero =>
      obtain rfl : head = bucket := by simpa using found
      rw [first] at oldest
      cases later : oldestQos0From (base + 1) buckets with
      | none =>
        rw [later] at oldest
        cases oldest
        exact .inr ⟨rfl, Nat.le_refl _⟩
      | some rival =>
        rw [later] at oldest
        dsimp only at oldest
        split at oldest
        · rename_i older
          cases oldest
          exact .inl older
        · cases oldest
          exact .inr ⟨rfl, Nat.le_refl _⟩
    | succ i =>
      rw [List.getElem?_cons_succ] at found
      obtain ⟨⟨place, rival⟩, later⟩ :=
        Option.isSome_iff_exists.mp (oldestQos0From_isSome (base + 1) found first)
      have least := ih later found
      rw [later] at oldest
      cases mine : head.oldestQos0? with
      | none =>
        rw [mine] at oldest
        cases oldest
        exact least.imp id fun tie => ⟨tie.1, by omega⟩
      | some own =>
        rw [mine] at oldest
        dsimp only at oldest
        split at oldest
        · cases oldest
          exact least.imp id fun tie => ⟨tie.1, by omega⟩
        · rename_i younger
          cases oldest
          have before : key.sequence ≤ rival.sequence := UInt64.not_lt.mp younger
          rcases least with least | ⟨tie, _⟩
          · exact .inl (UInt64.lt_of_le_of_lt before least)
          · rcases UInt64.le_iff_lt_or_eq.mp before with less | same
            · exact .inl (tie ▸ less)
            · exact .inr ⟨same.trans tie, by omega⟩

theorem weighs_of_bears (bears : store.Bears b) :
    ∃ bucket, store.buckets[b.index]? = some bucket ∧ bucket.Weighs b.key ∧
      bucket.entries.get? b.key = some (.publish b.message) := by
  obtain ⟨stored, once⟩ := bears
  cases found : store.buckets[b.index]? with
  | none => simp [entryAt, contents, found] at stored
  | some bucket =>
    rw [entryAt_of_getElem? found] at stored
    exact ⟨bucket, rfl, ⟨_, stored, by simp [Entry.qos0Bytes?, once]⟩, stored⟩

theorem bears_of_weighs {index : Nat} {bucket : Bucket} {key : EntryKey}
    (found : store.buckets[index]? = some bucket) (weighs : bucket.Weighs key) :
    ∃ message, store.Bears ⟨index, key, message⟩ := by
  obtain ⟨entry, stored, light⟩ := weighs
  rw [Entry.qos0Bytes?_eq, Option.isSome_map] at light
  obtain ⟨message, its⟩ := Option.isSome_iff_exists.mp light
  obtain ⟨rfl, once⟩ := Entry.qos0?_eq_some.mp its
  exact ⟨message, (entryAt_of_getElem? found key).trans stored, once⟩

theorem exists_oldestQos0?
    (indexed : ∀ ⦃i : Nat⦄ ⦃bucket : Bucket⦄, store.buckets[i]? = some bucket → bucket.Indexed)
    (bears : store.Bears b) :
    ∃ index key message, store.oldestQos0? = some (index, key) ∧
      store.Bears ⟨index, key, message⟩ := by
  obtain ⟨bucket, found, weighs, _⟩ := weighs_of_bears bears
  have listed : store.buckets.toList[b.index]? = some bucket := by
    rw [Array.getElem?_toList, found]
  obtain ⟨first, least⟩ := (indexed found).exists_oldest weighs
  obtain ⟨⟨index, key⟩, oldest⟩ := Option.isSome_iff_exists.mp
    (oldestQos0From_isSome 0 listed least)
  obtain ⟨home, there, own⟩ := oldestQos0?_eq_some oldest
  obtain ⟨message, bears⟩ :=
    bears_of_weighs there (((indexed there).oldest_iff key).mp own).1
  exact ⟨index, key, message, oldest, bears⟩

/-- No message is older than the one that is looked up. -/
theorem not_older (kept : store.Kept) {index : Nat} {key : EntryKey} {message : StoredPublish}
    (oldest : store.oldestQos0? = some (index, key)) (bears : store.Bears b) :
    b.compareAge ⟨index, key, message⟩ ≠ .lt := by
  intro before
  obtain ⟨bucket, found, weighs, _⟩ := weighs_of_bears bears
  have indexed := (kept found).agrees.indexed
  have listed : store.buckets.toList[b.index]? = some bucket := by
    rw [Array.getElem?_toList, found]
  obtain ⟨first, least⟩ := indexed.exists_oldest weighs
  have front := oldestQos0From_least oldest listed least
  have older := Ballast.compareAge_eq_lt.mp before
  have inside := indexed.oldest_le least weighs
  have numbers : first.sequence.toNat ≤ b.key.sequence.toNat := by
    rcases inside with rfl | less
    · exact Nat.le_refl _
    · rcases EntryKey.compare_age_eq_lt.mp less with less | ⟨tie, _⟩
      · exact Nat.le_of_lt (UInt64.lt_iff_toNat_lt.mp less)
      · exact Nat.le_of_eq (congrArg UInt64.toNat tie)
  simp only [UInt64.lt_iff_toNat_lt, ← UInt64.toNat_inj] at older front
  -- the numbers tie, so both are in one bucket
  obtain ⟨same, queues⟩ : b.index = index ∧ compare b.key.queue key.queue = .lt := by
    rcases older with less | ⟨_, less | tie⟩
    · omega
    · omega
    · exact tie
  subst same
  obtain ⟨home, there, own⟩ := oldestQos0?_eq_some oldest
  cases found.symm.trans there
  obtain rfl := Option.some.inj (least.symm.trans own)
  rcases inside with rfl | less
  · simp at queues
  · rcases EntryKey.compare_age_eq_lt.mp less with less | ⟨_, back⟩
    · have := UInt64.lt_iff_toNat_lt.mp less
      omega
    · cases queues.symm.trans (OrientedCmp.gt_iff_lt.mpr back)

namespace Ranked

/-- With nothing to find, nothing is found. -/
theorem oldest_nil (ranked : store.Ranked []) (kept : store.Kept) : store.oldestQos0? = none := by
  cases oldest : store.oldestQos0? with
  | none => rfl
  | some first =>
    obtain ⟨index, key⟩ := first
    obtain ⟨bucket, found, least⟩ := oldestQos0?_eq_some oldest
    have weighs := (((kept found).agrees.indexed.oldest_iff key).mp least).1
    obtain ⟨message, bears⟩ := bears_of_weighs found weighs
    cases (ranked.all _).mpr bears

/-- What is found is the oldest. -/
theorem oldest_cons (ranked : store.Ranked (b :: rest)) (kept : store.Kept) :
    store.oldestQos0? = some (b.index, b.key) := by
  obtain ⟨index, key, message, oldest, bears⟩ :=
    exists_oldestQos0? (fun _ _ found => (kept found).agrees.indexed)
      ((ranked.all b).mp List.mem_cons_self)
  rcases List.mem_cons.mp ((ranked.all _).mpr bears) with same | behind
  · rw [oldest, ← same]
  · have older := (List.pairwise_cons.mp ranked.ascending).1 _ behind
    exact absurd older (not_older kept oldest ((ranked.all b).mp List.mem_cons_self))

/-- Once the oldest is gone, the others are left. -/
theorem tail (ranked : store.Ranked (b :: rest))
    (gone : ∀ place key, after.entryAt place key =
      if place = b.index ∧ key = b.key then none else store.entryAt place key) :
    after.Ranked rest := by
  obtain ⟨first, others⟩ := List.pairwise_cons.mp ranked.ascending
  refine ⟨fun other => ?_, others⟩
  have listed := ranked.all other
  rw [List.mem_cons] at listed
  rw [Bears, gone]
  split
  · rename_i same
    -- what stood in its place is gone too
    have absent : other ∉ rest := fun member => Ballast.apart_of_lt (first other member) same
    simp [absent]
  · rename_i differs
    rw [Bears] at listed
    rw [← listed]
    constructor
    · exact Or.inr
    · rintro (rfl | member)
      · exact absurd ⟨rfl, rfl⟩ differs
      · exact member

end Ranked

end Store

end DeliveryQueue
