/-!
Finite maps kept as a list of bindings in strictly ascending key order. Equal contents mean
equal tables, the smallest key stands first, and `get?` is all there is to know about a table
(`Table.ext_get?`).
-/
namespace DeliveryQueue

open Std

structure Table (κ α : Type) [Ord κ] where
  bindings : List (κ × α)
  ascending : bindings.Pairwise (fun a b => compare a.1 b.1 = .lt)
  deriving DecidableEq

namespace Table

variable {κ α : Type} [Ord κ]

def empty : Table κ α := ⟨[], List.Pairwise.nil⟩

instance : Inhabited (Table κ α) := ⟨empty⟩

instance [Repr κ] [Repr α] : Repr (Table κ α) := ⟨fun t n => reprPrec t.bindings n⟩

/-- The value bound to `key` in a list of bindings. -/
def find? (key : κ) : List (κ × α) → Option α
  | [] => none
  | (k, a) :: rest => if compare key k = .eq then some a else find? key rest

def get? (t : Table κ α) (key : κ) : Option α := find? key t.bindings

def contains (t : Table κ α) (key : κ) : Bool := (t.get? key).isSome

def size (t : Table κ α) : Nat := t.bindings.length

def keys (t : Table κ α) : List κ := t.bindings.map Prod.fst

/-- The binding with the smallest key. -/
def first? (t : Table κ α) : Option (κ × α) := t.bindings.head?

/-- Bind `key` in an ascending list, in the place of an older binding of it. -/
def place (key : κ) (a : α) : List (κ × α) → List (κ × α)
  | [] => [(key, a)]
  | (k, b) :: rest =>
    match compare key k with
    | .lt => (key, a) :: (k, b) :: rest
    | .eq => (key, a) :: rest
    | .gt => (k, b) :: place key a rest

theorem mem_of_mem_place {key : κ} {a : α} {x : κ × α} {l : List (κ × α)}
    (h : x ∈ place key a l) : x = (key, a) ∨ x ∈ l := by
  induction l with
  | nil => simpa [place] using h
  | cons y rest ih =>
    obtain ⟨k, b⟩ := y
    simp only [place] at h
    split at h <;> simp only [List.mem_cons] at h ⊢
    · exact h
    · rcases h with h | h
      · exact .inl h
      · exact .inr (.inr h)
    · rcases h with h | h
      · exact .inr (.inl h)
      · rcases ih h with h | h
        · exact .inl h
        · exact .inr (.inr h)

theorem place_ascending [TransOrd κ] [LawfulEqOrd κ] {key : κ} {a : α} {l : List (κ × α)}
    (sorted : l.Pairwise (fun a b => compare a.1 b.1 = .lt)) :
    (place key a l).Pairwise (fun a b => compare a.1 b.1 = .lt) := by
  induction l with
  | nil => simp [place]
  | cons y rest ih =>
    obtain ⟨k, b⟩ := y
    obtain ⟨above, sorted⟩ := List.pairwise_cons.mp sorted
    simp only [place]
    split
    · rename_i before
      refine List.pairwise_cons.mpr ⟨?_, List.pairwise_cons.mpr ⟨above, sorted⟩⟩
      intro x member
      rcases List.mem_cons.mp member with rfl | member
      · exact before
      · exact TransCmp.lt_trans before (above x member)
    · rename_i same
      have same : key = k := LawfulEqOrd.eq_of_compare same
      exact List.pairwise_cons.mpr ⟨same ▸ above, sorted⟩
    · rename_i after
      refine List.pairwise_cons.mpr ⟨?_, ih sorted⟩
      intro x member
      rcases mem_of_mem_place member with rfl | member
      · exact OrientedCmp.gt_iff_lt.mp after
      · exact above x member

def insert [TransOrd κ] [LawfulEqOrd κ] (t : Table κ α) (key : κ) (a : α) : Table κ α :=
  ⟨place key a t.bindings, place_ascending t.ascending⟩

def filter (t : Table κ α) (keep : κ → α → Bool) : Table κ α :=
  ⟨t.bindings.filter (fun b => keep b.1 b.2), t.ascending.filter _⟩

def erase (t : Table κ α) (key : κ) : Table κ α :=
  t.filter fun k _ => compare key k != .eq

def ofList [TransOrd κ] [LawfulEqOrd κ] (l : List (κ × α)) : Table κ α :=
  l.foldl (fun t b => t.insert b.1 b.2) empty

section Laws
variable [LawfulEqOrd κ]

theorem mem_of_find?_eq_some {key : κ} {a : α} {l : List (κ × α)} (h : find? key l = some a) :
    (key, a) ∈ l := by
  induction l with
  | nil => cases h
  | cons y rest ih =>
    simp only [find?] at h
    split at h
    · rename_i same
      rw [LawfulEqOrd.eq_of_compare same]
      cases h
      exact List.mem_cons_self
    · exact List.mem_cons_of_mem _ (ih h)

theorem find?_eq_some_of_mem {key : κ} {a : α} {l : List (κ × α)}
    (sorted : l.Pairwise (fun a b => compare a.1 b.1 = .lt)) (h : (key, a) ∈ l) :
    find? key l = some a := by
  induction l with
  | nil => cases h
  | cons y rest ih =>
    obtain ⟨above, sorted⟩ := List.pairwise_cons.mp sorted
    rcases List.mem_cons.mp h with rfl | h
    · simp [find?]
    · have before := above (key, a) h
      have differs : compare key y.1 ≠ .eq := by
        intro same
        rw [LawfulEqOrd.eq_of_compare same] at before
        simp at before
      simp [find?, differs, ih sorted h]

/-- A binding is in the list exactly when looking up its key finds it. -/
theorem mem_bindings_iff {t : Table κ α} {key : κ} {a : α} :
    (key, a) ∈ t.bindings ↔ t.get? key = some a :=
  ⟨find?_eq_some_of_mem t.ascending, mem_of_find?_eq_some⟩

theorem find?_place_self (key : κ) (a : α) (l : List (κ × α)) :
    find? key (place key a l) = some a := by
  induction l with
  | nil => simp [place, find?]
  | cons y rest ih =>
    obtain ⟨k, b⟩ := y
    simp only [place]
    split
    · simp [find?]
    · simp [find?]
    · rename_i after
      simp [find?, after, ih]

theorem find?_place_of_ne {key other : κ} (differs : other ≠ key) (a : α) (l : List (κ × α)) :
    find? other (place key a l) = find? other l := by
  have apart : compare other key ≠ .eq := fun same => differs (LawfulEqOrd.eq_of_compare same)
  induction l with
  | nil => simp [place, find?, apart]
  | cons y rest ih =>
    obtain ⟨k, b⟩ := y
    simp only [place]
    split
    · simp [find?, apart]
    · rename_i same
      rw [← LawfulEqOrd.eq_of_compare same]
      simp [find?, apart]
    · simp [find?, ih]

theorem get?_filter (t : Table κ α) (keep : κ → α → Bool) (key : κ) :
    (t.filter keep).get? key = (t.get? key).filter (keep key) := by
  cases h : (t.get? key).filter (keep key) with
  | some a =>
    obtain ⟨found, kept⟩ := Option.filter_eq_some_iff.mp h
    exact mem_bindings_iff.mp (List.mem_filter.mpr ⟨mem_bindings_iff.mpr found, kept⟩)
  | none =>
    cases got : (t.filter keep).get? key with
    | none => rfl
    | some a =>
      obtain ⟨member, kept⟩ := List.mem_filter.mp (mem_bindings_iff.mpr got)
      rw [mem_bindings_iff.mp member] at h
      simp at kept
      simp [kept] at h

@[simp] theorem get?_erase_self (t : Table κ α) (key : κ) : (t.erase key).get? key = none := by
  cases found : t.get? key <;> simp [erase, get?_filter, found, Option.filter]

theorem get?_erase_of_ne {key other : κ} (differs : other ≠ key) (t : Table κ α) :
    (t.erase key).get? other = t.get? other := by
  have apart : compare key other ≠ .eq := fun same =>
    differs (LawfulEqOrd.eq_of_compare same).symm
  cases found : t.get? other <;> simp [erase, get?_filter, found, Option.filter, apart]

theorem bindings_nodup (t : Table κ α) : t.bindings.Nodup :=
  t.ascending.imp fun {a b} before same => by rw [same] at before; simp at before

theorem nodup_keys (t : Table κ α) : t.keys.Nodup :=
  List.pairwise_map.mpr <| t.ascending.imp fun {a b} before same => by
    rw [same] at before
    simp at before

theorem eq_of_mem_bindings {t : Table κ α} {key : κ} {a b : α} (ha : (key, a) ∈ t.bindings)
    (hb : (key, b) ∈ t.bindings) : a = b :=
  Option.some.inj ((mem_bindings_iff.mp ha).symm.trans (mem_bindings_iff.mp hb))

theorem mem_bindings_erase_iff {t : Table κ α} {key : κ} {x : κ × α} :
    x ∈ (t.erase key).bindings ↔ x ∈ t.bindings ∧ x.1 ≠ key := by
  obtain ⟨other, a⟩ := x
  rw [mem_bindings_iff, mem_bindings_iff]
  by_cases same : other = key
  · simp [same]
  · simp [get?_erase_of_ne same, same]

/-- A binding in front of all others. -/
theorem bindings_perm_of_get? {t : Table κ α} {key : κ} {a : α} (found : t.get? key = some a) :
    t.bindings.Perm ((key, a) :: (t.erase key).bindings) := by
  have apart : (key, a) ∉ (t.erase key).bindings := by simp [mem_bindings_erase_iff]
  refine (List.perm_ext_iff_of_nodup t.bindings_nodup
    (List.nodup_cons.mpr ⟨apart, (t.erase key).bindings_nodup⟩)).mpr ?_
  rintro ⟨other, b⟩
  rw [List.mem_cons, mem_bindings_erase_iff]
  constructor
  · intro member
    by_cases same : other = key
    · subst other
      exact .inl (by rw [eq_of_mem_bindings member (mem_bindings_iff.mpr found)])
    · exact .inr ⟨member, same⟩
  · rintro (same | ⟨member, _⟩)
    · exact same ▸ mem_bindings_iff.mpr found
    · exact member

variable [TransOrd κ]

@[simp] theorem get?_insert_self (t : Table κ α) (key : κ) (a : α) :
    (t.insert key a).get? key = some a := find?_place_self key a t.bindings

theorem get?_insert_of_ne {key other : κ} (differs : other ≠ key) (t : Table κ α) (a : α) :
    (t.insert key a).get? other = t.get? other := find?_place_of_ne differs a t.bindings

/-- Tables that answer every look-up alike are equal. -/
theorem ext_get? {t u : Table κ α} (h : ∀ key, t.get? key = u.get? key) : t = u := by
  have members : ∀ x : κ × α, x ∈ t.bindings ↔ x ∈ u.bindings := by
    intro x
    rw [mem_bindings_iff, mem_bindings_iff, h]
  have equal : t.bindings = u.bindings := by
    have perm : t.bindings.Perm u.bindings :=
      (List.perm_ext_iff_of_nodup t.bindings_nodup u.bindings_nodup).mpr members
    exact perm.eq_of_pairwise
      (fun a b _ _ lt gt => by
        have := TransCmp.lt_trans lt gt
        simp at this)
      t.ascending u.ascending
  cases t; cases u; cases equal; rfl

/-- Lists of bindings in ascending order are equal as soon as they have the same members. -/
theorem eq_of_mem_iff {l m : List (κ × α)} (hl : l.Pairwise (fun a b => compare a.1 b.1 = .lt))
    (hm : m.Pairwise (fun a b => compare a.1 b.1 = .lt)) (same : ∀ x, x ∈ l ↔ x ∈ m) : l = m :=
  congrArg bindings (ext_get? (t := ⟨l, hl⟩) (u := ⟨m, hm⟩) fun key => by
    ext a
    rw [← mem_bindings_iff, ← mem_bindings_iff]
    exact same (key, a))

@[simp] theorem erase_of_get?_eq_none {t : Table κ α} {key : κ} (absent : t.get? key = none) :
    t.erase key = t := by
  apply ext_get?
  intro other
  by_cases same : other = key
  · rw [same, get?_erase_self, absent]
  · exact get?_erase_of_ne same t

theorem insert_erase (t : Table κ α) (key : κ) (a : α) :
    (t.erase key).insert key a = t.insert key a := by
  apply ext_get?
  intro other
  by_cases same : other = key
  · rw [same, get?_insert_self, get?_insert_self]
  · rw [get?_insert_of_ne same, get?_insert_of_ne same, get?_erase_of_ne same]

theorem erase_insert (t : Table κ α) (key : κ) (a : α) :
    (t.insert key a).erase key = t.erase key := by
  apply ext_get?
  intro other
  by_cases same : other = key
  · rw [same, get?_erase_self, get?_erase_self]
  · rw [get?_erase_of_ne same, get?_erase_of_ne same, get?_insert_of_ne same]

theorem bindings_insert_perm (t : Table κ α) (key : κ) (a : α) :
    (t.insert key a).bindings.Perm ((key, a) :: (t.erase key).bindings) :=
  erase_insert t key a ▸ bindings_perm_of_get? (get?_insert_self t key a)

end Laws

end Table

end DeliveryQueue
