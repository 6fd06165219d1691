import DeliveryQueue.Bytes

/-!
What a file holds: runs of zeros, each with bytes behind it. A file is made longer, or written to
far behind its end, without the zeros being stored one by one. Each operation does to the bytes what
the operation of the same name does to a byte string (`bytes_resize`, `bytes_overwrite`).
-/
namespace DeliveryQueue

/-- Zeros and the bytes behind them. -/
structure Run where
  zeros : Nat
  bytes : Bytes
  deriving DecidableEq, Repr

namespace Run

def length (run : Run) : Nat := run.zeros + run.bytes.length

def all (run : Run) : Bytes := List.replicate run.zeros 0 ++ run.bytes

def take (run : Run) (count : Nat) : Run :=
  ⟨min count run.zeros, run.bytes.take (count - run.zeros)⟩

def drop (run : Run) (count : Nat) : Run := ⟨run.zeros - count, run.bytes.drop (count - run.zeros)⟩

theorem length_all (run : Run) : run.all.length = run.length := by simp [all, length]

theorem all_take (run : Run) (count : Nat) : (run.take count).all = run.all.take count := by
  simp [all, take, List.take_append, List.take_replicate]

theorem all_drop (run : Run) (count : Nat) : (run.drop count).all = run.all.drop count := by
  simp [all, drop, List.drop_append, List.drop_replicate]

end Run

structure FileContent where
  runs : List Run
  deriving DecidableEq, Repr

namespace FileContent

def empty : FileContent := ⟨[]⟩

instance : Inhabited FileContent := ⟨empty⟩

def ofBytes (bytes : Bytes) : FileContent := ⟨[⟨0, bytes⟩]⟩

/-- Zeros in front of bytes. -/
def zerosThen : Nat → Bytes → Bytes
  | 0, bytes => bytes
  | count + 1, bytes => zerosThen count (0 :: bytes)

theorem zerosThen_eq (count : Nat) (bytes : Bytes) :
    zerosThen count bytes = List.replicate count 0 ++ bytes := by
  induction count generalizing bytes with
  | zero => rfl
  | succ count ih => simp [zerosThen, ih, List.replicate_succ']

/-- The bytes of some runs. -/
def bytesOf : List Run → Bytes
  | [] => []
  | [run] => zerosThen run.zeros run.bytes
  | run :: rest => zerosThen run.zeros (run.bytes ++ bytesOf rest)

def bytes (content : FileContent) : Bytes := bytesOf content.runs

def lengthOf : List Run → Nat
  | [] => 0
  | run :: rest => run.length + lengthOf rest

def length (content : FileContent) : Nat := lengthOf content.runs

def takeOf (count : Nat) : List Run → List Run
  | [] => []
  | run :: rest =>
    if run.length ≤ count then run :: takeOf (count - run.length) rest else [run.take count]

def dropOf (count : Nat) : List Run → List Run
  | [] => []
  | run :: rest =>
    if run.length ≤ count then dropOf (count - run.length) rest else run.drop count :: rest

/-- Cut the content to a length, or fill it up with zeros. -/
def resize (content : FileContent) (length : Nat) : FileContent :=
  if content.length < length then ⟨content.runs ++ [⟨length - content.length, []⟩]⟩
  else ⟨takeOf length content.runs⟩

/-- Overwrite the content from `offset` on, filling a gap with zeros and growing at the end. Writing
nothing changes nothing. -/
def overwrite (content : FileContent) (offset : Nat) (written : Bytes) : FileContent :=
  if written.isEmpty then content
  else ⟨(content.resize offset).runs ++
    ⟨0, written⟩ :: dropOf (offset + written.length) content.runs⟩

/-- Write at the end. -/
def append (content : FileContent) (written : Bytes) : FileContent :=
  content.overwrite content.length written

theorem bytesOf_nil : bytesOf [] = [] := rfl

theorem bytesOf_cons (run : Run) (rest : List Run) :
    bytesOf (run :: rest) = run.all ++ bytesOf rest := by
  cases rest <;> simp [bytesOf, zerosThen_eq, Run.all]

theorem bytesOf_append (front rest : List Run) :
    bytesOf (front ++ rest) = bytesOf front ++ bytesOf rest := by
  induction front with
  | nil => rfl
  | cons run front ih => simp [bytesOf_cons, ih]

theorem length_bytesOf (runs : List Run) : (bytesOf runs).length = lengthOf runs := by
  induction runs with
  | nil => rfl
  | cons run rest ih => simp [bytesOf_cons, lengthOf, Run.length_all, ih]

theorem bytesOf_takeOf (count : Nat) (runs : List Run) :
    bytesOf (takeOf count runs) = (bytesOf runs).take count := by
  induction runs generalizing count with
  | nil => simp [takeOf, bytesOf]
  | cons run rest ih =>
    simp only [takeOf, bytesOf_cons, List.take_append, Run.length_all]
    split
    · rename_i fits
      have whole : run.all.take count = run.all :=
        List.take_of_length_le (by rw [Run.length_all]; exact fits)
      rw [bytesOf_cons, ih, whole]
    · rename_i long
      have none_left : count - run.length = 0 := by omega
      simp [bytesOf_cons, bytesOf_nil, Run.all_take, none_left]

theorem bytesOf_dropOf (count : Nat) (runs : List Run) :
    bytesOf (dropOf count runs) = (bytesOf runs).drop count := by
  induction runs generalizing count with
  | nil => simp [dropOf, bytesOf]
  | cons run rest ih =>
    simp only [dropOf, bytesOf_cons, List.drop_append, Run.length_all]
    split
    · rename_i fits
      have nothing : run.all.drop count = [] :=
        List.drop_of_length_le (by rw [Run.length_all]; exact fits)
      rw [ih, nothing, List.nil_append]
    · rename_i long
      have none_left : count - run.length = 0 := by omega
      simp [bytesOf_cons, Run.all_drop, none_left]

@[simp] theorem bytes_empty : empty.bytes = [] := rfl

@[simp] theorem bytes_ofBytes (bytes : Bytes) : (ofBytes bytes).bytes = bytes := rfl

@[simp] theorem length_bytes (content : FileContent) : content.bytes.length = content.length :=
  length_bytesOf content.runs

@[simp] theorem bytes_resize (content : FileContent) (length : Nat) :
    (content.resize length).bytes = DeliveryQueue.resize content.bytes length := by
  unfold resize DeliveryQueue.resize
  rw [length_bytes]
  split
  · rename_i short
    have whole : content.bytes.take length = content.bytes :=
      List.take_of_length_le (by rw [length_bytes]; omega)
    rw [whole]
    simp [bytes, bytesOf_append, bytesOf_cons, bytesOf_nil, Run.all]
  · rename_i long
    have no_gap : length - content.length = 0 := by omega
    simp [bytes, bytesOf_takeOf, no_gap]

@[simp] theorem bytes_overwrite (content : FileContent) (offset : Nat) (written : Bytes) :
    (content.overwrite offset written).bytes =
      DeliveryQueue.overwrite content.bytes offset written := by
  have resized := bytes_resize content offset
  unfold overwrite DeliveryQueue.overwrite
  split
  · rfl
  · simp only [bytes] at resized ⊢
    simp [bytesOf_append, bytesOf_cons, bytesOf_dropOf, resized, Run.all]

end FileContent

end DeliveryQueue
