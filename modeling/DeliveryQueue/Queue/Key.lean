import DeliveryQueue.Bytes
import DeliveryQueue.Checksum

/-!
Names of queues and of places in them, with their order: entries of one queue stand together, in
the order in which they came.
-/
namespace DeliveryQueue

open Std

/-- A client and a shared group of the same id own different queues. -/
structure QueueKey where
  id : String
  shared : Bool
  deriving DecidableEq, Repr, Inhabited

namespace QueueKey

instance : Ord QueueKey := ⟨compareLex (compareOn id) (compareOn shared)⟩

theorem compare_def :
    compare (α := QueueKey) = compareLex (compareOn id) (compareOn shared) := rfl

instance : TransOrd QueueKey :=
  inferInstanceAs (TransCmp (compareLex (compareOn id) (compareOn shared)))

instance : LawfulEqOrd QueueKey where
  eq_of_compare {a b} h := by
    simp [compare_def, compareLex, compareOn, Ordering.then_eq_eq] at h
    cases a; cases b; simp_all

def text (key : QueueKey) : String := if key.shared then "shared:" ++ key.id else key.id

end QueueKey

/-- One place in one queue. -/
structure EntryKey where
  queue : QueueKey
  sequence : UInt64
  deriving DecidableEq, Repr, Inhabited

namespace EntryKey

instance : Ord EntryKey := ⟨compareLex (compareOn queue) (compareOn sequence)⟩

theorem compare_def :
    compare (α := EntryKey) = compareLex (compareOn queue) (compareOn sequence) := rfl

instance : TransOrd EntryKey :=
  inferInstanceAs (TransCmp (compareLex (compareOn queue) (compareOn sequence)))

instance : LawfulEqOrd EntryKey where
  eq_of_compare {a b} h := by
    simp [compare_def, compareLex, compareOn, Ordering.then_eq_eq] at h
    cases a; cases b; simp_all

end EntryKey

/-- A place as seen by age: over all queues, the smaller sequence number is the older. -/
structure AgeKey where
  sequence : UInt64
  queue : QueueKey
  deriving DecidableEq, Repr, Inhabited

namespace AgeKey

instance : Ord AgeKey := ⟨compareLex (compareOn sequence) (compareOn queue)⟩

theorem compare_def :
    compare (α := AgeKey) = compareLex (compareOn sequence) (compareOn queue) := rfl

instance : TransOrd AgeKey :=
  inferInstanceAs (TransCmp (compareLex (compareOn sequence) (compareOn queue)))

instance : LawfulEqOrd AgeKey where
  eq_of_compare {a b} h := by
    simp [compare_def, compareLex, compareOn, Ordering.then_eq_eq] at h
    cases a; cases b; simp_all

end AgeKey

def EntryKey.age (key : EntryKey) : AgeKey := ⟨key.sequence, key.queue⟩

def AgeKey.entryKey (key : AgeKey) : EntryKey := ⟨key.queue, key.sequence⟩

/-- The bucket, out of `count`, that holds the queues of this id. It depends on nothing else, so a
queue finds its bucket again after a restart. -/
def bucketIndex (id : String) (count : Nat) : Nat :=
  (Checksum.crc32 (utf8 id)).toNat % max count 1

end DeliveryQueue
