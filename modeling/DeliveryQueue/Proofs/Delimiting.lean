import DeliveryQueue.Proofs.RoundTrip

/-!
Where a batch ends. Bytes behind those that a reader takes make no difference to it, unless it runs
short (`Batch.Steady`). So the beginning of a batch is never taken for a batch, nor is a batch with
more bytes behind it.
-/
namespace DeliveryQueue.Batch

variable {α β : Type}

/-- How a reading ends once there are more bytes behind, as against how it ended without. -/
inductive Prolonged (more : Bytes) : Except Fault (α × Bytes) → Except Fault (α × Bytes) → Prop
  | goesOn (value : α) (rest : Bytes) :
      Prolonged more (.ok (value, rest)) (.ok (value, rest ++ more))
  | refused (fault : Fault) : Prolonged more (.error fault) (.error fault)
  | short (field : Field) (later : Except Fault (α × Bytes)) :
      Prolonged more (.error (.truncated field)) later

/-- More bytes behind make no difference to a reader that does not run short. -/
def Steady (read : Bytes → Except Fault (α × Bytes)) : Prop :=
  ∀ bytes more, Prolonged more (read bytes) (read (bytes ++ more))

namespace Steady

variable {read : Bytes → Except Fault (α × Bytes)}

theorem done (value : α) : Steady fun bytes => .ok (value, bytes) := fun bytes _ =>
  .goesOn value bytes

theorem refuse (fault : Fault) :
    Steady fun _ : Bytes => (.error fault : Except Fault (α × Bytes)) := fun _ _ => .refused fault

theorem bind {next : α × Bytes → Except Fault (β × Bytes)} (first : Steady read)
    (later : ∀ value, Steady fun bytes => next (value, bytes)) :
    Steady fun bytes => read bytes >>= next := by
  intro bytes more
  have ends := first bytes more
  dsimp only
  generalize read bytes = before, read (bytes ++ more) = after at ends
  cases ends with
  | goesOn value rest => exact later value rest more
  | refused fault => exact .refused fault
  | short field => exact .short field _

theorem ite {condition : Prop} [Decidable condition] {other : Bytes → Except Fault (α × Bytes)}
    (first : Steady read) (second : Steady other) :
    Steady fun bytes => if condition then read bytes else other bytes := by
  split <;> assumption

theorem readChunk (count : Nat) (field : Field) : Steady (readChunk count field) := by
  intro bytes more
  unfold Batch.readChunk
  cases split : splitExact count bytes with
  | none => exact .short field _
  | some parts =>
    obtain ⟨full, rfl⟩ := splitExact_eq_some_iff.mp split
    rw [List.append_assoc, splitExact_append full]
    exact .goesOn _ _

theorem readByte (field : Field) : Steady (readByte field) := by
  rintro (- | ⟨byte, rest⟩) more
  · exact .short field _
  · exact .goesOn byte rest

theorem require (count : Nat) (field : Field) (later : Steady read) : Steady fun bytes => (do
      Batch.require count field bytes
      read bytes) := by
  intro bytes more
  cases split : splitExact count bytes with
  | none =>
    simp only [Batch.require, split]
    exact .short field _
  | some parts =>
    obtain ⟨full, rfl⟩ := splitExact_eq_some_iff.mp split
    have still : splitExact count (parts.1 ++ parts.2 ++ more) =
        some (parts.1, parts.2 ++ more) := by
      rw [List.append_assoc, splitExact_append full]
    simp only [Batch.require, split, still]
    exact later _ more

theorem readNumber (width : Nat) (field : Field) : Steady (readNumber width field) :=
  (readChunk width field).bind fun _ => .done _

theorem readWord16 (field : Field) : Steady (readWord16 field) :=
  (readNumber 2 field).bind fun _ => .done _

theorem readWord64 (field : Field) : Steady (readWord64 field) :=
  (readNumber 8 field).bind fun _ => .done _

theorem readFlag (field : Field) : Steady (readFlag field) := by
  unfold Batch.readFlag
  exact (readByte field).bind fun _ => .done _

theorem readText (field : Field) : Steady (readText field) := by
  unfold Batch.readText
  refine (readNumber 2 field).bind fun length => (readChunk length field).bind fun chunk => ?_
  dsimp only
  cases ofUtf8? chunk with
  | none => exact .refuse _
  | some text => exact .done _

theorem readKey : Steady readKey := by
  unfold Batch.readKey
  exact (readFlag _).bind fun _ => (readText _).bind fun _ => (readWord64 _).bind fun _ => .done _

theorem readQos : Steady readQos := by
  unfold Batch.readQos
  refine (readByte _).bind fun level => ?_
  dsimp only
  cases Qos.ofLevel? level.toNat with
  | none => exact .refuse _
  | some qos => exact .done _

theorem readExpiry : Steady readExpiry := by
  unfold Batch.readExpiry
  exact (readFlag _).bind fun _ => .ite ((readWord64 _).bind fun _ => .done _) (.done _)

theorem readPublish : Steady readPublish := by
  unfold Batch.readPublish
  exact .require 4 _ <| (readWord16 _).bind fun _ => readQos.bind fun _ =>
    (readFlag _).bind fun _ => (readText _).bind fun _ => (readText _).bind fun _ =>
    (readWord64 _).bind fun _ => (readWord64 _).bind fun _ => readExpiry.bind fun _ =>
    (readWord64 _).bind fun _ => .done _

theorem readEntry : Steady readEntry := by
  unfold Batch.readEntry
  exact (readByte _).bind fun _ => .ite (readPublish.bind fun _ => .done _) <|
    .ite (readPublish.bind fun _ => .done _) <|
    .ite ((readWord16 _).bind fun _ => .done _) (.refuse _)

theorem readChange : Steady readChange := by
  unfold Batch.readChange
  exact (readByte _).bind fun _ => readKey.bind fun _ => .ite (readEntry.bind fun _ => .done _) <|
    .ite (.done _) <| .ite ((readWord16 _).bind fun _ => .done _) <|
    .ite ((readFlag _).bind fun _ => .done _) <|
    .ite ((readWord16 _).bind fun _ => .done _) (.refuse _)

theorem readChanges (count : Nat) : Steady (readChanges count) := by
  induction count with
  | zero => exact .done []
  | succ count ih => exact readChange.bind fun _ => ih.bind fun _ => .done _

end Steady

/-- The changes at the beginning of some bytes, as many as they tell. -/
def readFront (bytes : Bytes) : Except Fault (List Change × Bytes) := do
  let (count, bytes) ← readNumber 4 .batchHeader bytes
  readChanges count bytes

theorem decode_eq (bytes : Bytes) : decode bytes = (do
    let (changes, rest) ← readFront bytes
    if rest.isEmpty then return changes else .error (.trailing rest.length)) := by
  unfold decode readFront
  cases readNumber 4 .batchHeader bytes <;> rfl

theorem steady_readFront : Steady readFront :=
  (Steady.readNumber 4 _).bind fun count => .readChanges count

section
variable {changes : List Change} {part more : Bytes}
  (short : Fits (changes.flatMap changeTexts)) (few : changes.length < UInt32.size)
include short few

theorem readFront_append (more : Bytes) :
    readFront (bytes changes ++ more) = .ok (changes.map Change.spelled, more) := by
  have count : ofBigEndian (bigEndian 4 changes.length) = changes.length :=
    ofBigEndian_bigEndian few
  simp only [readFront, bytes, List.append_assoc, readNumber_append _ _ (length_bigEndian 4 _),
    count, bind, Except.bind, readChanges_append more short]

/-- What is cut off a batch is missed. -/
theorem decode_of_cut (split : bytes changes = part ++ more) (cut : more ≠ []) :
    ∃ field, decode part = .error (.truncated field) := by
  have whole := readFront_append short few []
  rw [List.append_nil, split] at whole
  have ends := steady_readFront part more
  rw [whole] at ends
  rw [decode_eq]
  cases front : readFront part with
  | ok parts =>
    rw [front] at ends
    generalize back : ([] : Bytes) = none at ends
    cases ends
    exact absurd (List.append_eq_nil_iff.mp back.symm).2 cut
  | error fault =>
    rw [front] at ends
    cases ends
    exact ⟨_, rfl⟩

/-- What stands behind a batch is noticed. -/
theorem decode_append (behind : more ≠ []) :
    decode (bytes changes ++ more) = .error (.trailing more.length) := by
  have left : more.isEmpty = false := by simpa using behind
  rw [decode_eq, readFront_append short few]
  simp only [bind, Except.bind, left, Bool.false_eq_true, if_false]

end

end DeliveryQueue.Batch
