import DeliveryQueue.Bucket
import Mathlib.Algebra.GroupWithZero.Nat

/-!
What changes do to entries, indexes aside. A change settles the fate of one key: `Change.outcome`
says what stands there afterwards, given what stood there before.
-/
namespace DeliveryQueue

namespace Table

variable {κ α : Type} [Ord κ] [Std.TransOrd κ] [Std.LawfulEqOrd κ]

/-- Bind `key`, or leave it unbound. -/
def set (t : Table κ α) (key : κ) : Option α → Table κ α
  | some a => t.insert key a
  | none => t.erase key

@[simp] theorem get?_set_self (t : Table κ α) (key : κ) (a : Option α) :
    (t.set key a).get? key = a := by
  cases a <;> simp [set]

theorem get?_set_of_ne {key other : κ} (differs : other ≠ key) (t : Table κ α) (a : Option α) :
    (t.set key a).get? other = t.get? other := by
  cases a with
  | none => exact get?_erase_of_ne differs t
  | some a => exact get?_insert_of_ne differs t a

theorem erase_set (t : Table κ α) (key : κ) (a : Option α) :
    (t.set key a).erase key = t.erase key := by
  cases a with
  | none => exact erase_of_get?_eq_none (get?_erase_self t key)
  | some a => exact erase_insert t key a

/-- The sum of a measure over all bindings. -/
def total (t : Table κ α) (measure : κ → α → Nat) : Nat :=
  (t.bindings.map fun b => measure b.1 b.2).sum

omit [Std.TransOrd κ] [Std.LawfulEqOrd κ] in
theorem total_one (t : Table κ α) : (t.total fun _ _ => 1) = t.size := by
  simp [total, size, List.map_const']

omit [Std.TransOrd κ] in
theorem total_erase (t : Table κ α) (measure : κ → α → Nat) (key : κ) :
    (t.erase key).total measure + (t.get? key).elim 0 (measure key) = t.total measure := by
  cases found : t.get? key with
  | none =>
    have same : (t.erase key).bindings = t.bindings := by
      apply List.filter_eq_self.mpr
      intro b member
      have differs : compare key b.1 ≠ .eq := by
        intro equal
        rw [Std.LawfulEqOrd.eq_of_compare equal, mem_bindings_iff.mp member] at found
        cases found
      simpa using differs
    simp [total, same]
  | some a =>
    have sum := ((bindings_perm_of_get? found).map fun b => measure b.1 b.2).sum_nat
    simp only [List.map_cons, List.sum_cons] at sum
    simp only [total, Option.elim, sum]
    omega

/-- Setting a key trades the old value's measure for the new one's. -/
theorem total_set (t : Table κ α) (measure : κ → α → Nat) (key : κ) (a : Option α) :
    (t.set key a).total measure + (t.get? key).elim 0 (measure key) =
      t.total measure + a.elim 0 (measure key) := by
  have before := total_erase t measure key
  have after := total_erase (t.set key a) measure key
  rw [erase_set, get?_set_self] at after
  omega

end Table

abbrev Entries := Table EntryKey Entry

/-- No two entries of a queue carry one packet id. -/
def Table.SingleCarriers (entries : Entries) : Prop :=
  ∀ ⦃queue id a b first second⦄, entries.get? ⟨queue, a⟩ = some first → first.packetId? = some id →
    entries.get? ⟨queue, b⟩ = some second → second.packetId? = some id → a = b

namespace Change

/-- What stands at the change's key afterwards. -/
def outcome (change : Change) (before : Option Entry) : Option Entry :=
  match change with
  | insert _ entry => some entry
  | delete _ => none
  | assign _ packetId => before.map (Entry.assigned packetId)
  | mark _ taken => before.map (Entry.marked taken)
  | release _ packetId => some (.pubrel packetId)

/-- The entry that a change takes out for good. -/
def displaced (change : Change) (before : Option Entry) : Option Entry :=
  match change with
  | insert .. | delete _ | release .. => before
  | assign .. | mark .. => none

def act (entries : Entries) (change : Change) : Entries :=
  entries.set change.key (change.outcome (entries.get? change.key))

def actAll (entries : Entries) (changes : List Change) : Entries := changes.foldl act entries

@[simp] theorem actAll_nil (entries : Entries) : actAll entries [] = entries := rfl

@[simp] theorem actAll_cons (entries : Entries) (change : Change) (changes : List Change) :
    actAll entries (change :: changes) = actAll (change.act entries) changes := rfl

theorem actAll_append (entries : Entries) (front back : List Change) :
    actAll entries (front ++ back) = actAll (actAll entries front) back :=
  List.foldl_append

/-- The entries that changes, one after the other, take out for good. -/
def displacedAll (entries : Entries) : List Change → List Entry
  | [] => []
  | change :: changes =>
    (change.displaced (entries.get? change.key)).toList ++ displacedAll (change.act entries) changes

/-- No other key is touched. -/
theorem get?_act_of_ne {change : Change} {key : EntryKey} (differs : key ≠ change.key)
    (entries : Entries) : (change.act entries).get? key = entries.get? key :=
  Table.get?_set_of_ne differs entries _

@[simp] theorem get?_act_self (change : Change) (entries : Entries) :
    (change.act entries).get? change.key = change.outcome (entries.get? change.key) :=
  Table.get?_set_self entries _ _

theorem get?_actAll_of_forall_ne {changes : List Change} {key : EntryKey} (entries : Entries)
    (differs : ∀ change ∈ changes, key ≠ change.key) :
    (actAll entries changes).get? key = entries.get? key := by
  induction changes generalizing entries with
  | nil => rfl
  | cons change changes ih =>
    obtain ⟨first, others⟩ := List.forall_mem_cons.mp differs
    rw [actAll_cons, ih _ others, get?_act_of_ne first]

/-- What is there after changes was there before, or one of them touched it. -/
theorem mem_of_get?_actAll {entries : Entries} {changes : List Change} {key : EntryKey}
    {entry : Entry} (found : (actAll entries changes).get? key = some entry) :
    entries.get? key = some entry ∨ ∃ change ∈ changes, change.key = key := by
  by_cases touched : ∃ change ∈ changes, change.key = key
  · exact .inr touched
  · apply Or.inl
    rw [← get?_actAll_of_forall_ne entries fun change member same =>
      touched ⟨change, member, same.symm⟩]
    exact found

end Change

end DeliveryQueue
