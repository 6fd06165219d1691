import DeliveryQueue.Proofs.Delimiting

/-!
Reading with the checks apart from the reads. A `Cursor` looks how many bytes are left only where
it checks; taking bytes that no check before has shown to be there is `Stop.uncovered`. With the
checks written below no read is left uncovered: on all bytes, `Cursor.decode` ends as `decode` does
(`Cursor.decode_eq`).
-/
namespace DeliveryQueue.Batch

/-- Why a cursor goes no further. -/
inductive Stop
  | fault (fault : Fault)
  | uncovered
  deriving DecidableEq, Repr

/-- The bytes left, and how many of them a check has shown to be there. -/
structure Window where
  bytes : Bytes
  known : Nat
  there : known ≤ bytes.length

def Window.all (bytes : Bytes) : Window := ⟨bytes, 0, bytes.length.zero_le⟩

abbrev Cursor := StateT Window (Except Stop)

namespace Cursor

/-! Reading -/

/-- Go on only with `count` bytes left. -/
def check (count : Nat) (field : Field) : Cursor Unit := fun window =>
  if left : count ≤ window.bytes.length then
    .ok ((), ⟨window.bytes, max window.known count, Nat.max_le.mpr ⟨window.there, left⟩⟩)
  else .error (.fault (.truncated field))

/-- The next `count` bytes, without looking whether they are there. -/
def take (count : Nat) : Cursor Bytes := fun window =>
  if count ≤ window.known then
    have there := List.length_drop ▸ Nat.sub_le_sub_right window.there count
    .ok (window.bytes.take count, ⟨window.bytes.drop count, window.known - count, there⟩)
  else .error .uncovered

def number (width : Nat) : Cursor Nat := return ofBigEndian (← take width)

def byte : Cursor UInt8 := return .ofNat (← number 1)

def word16 : Cursor UInt16 := return .ofNat (← number 2)

def word64 : Cursor UInt64 := return .ofNat (← number 8)

def flag : Cursor Bool := return (← byte) != 0

def text (field : Field) : Cursor String := do
  check 2 field
  let length ← number 2
  check length field
  let chunk ← take length
  match ofUtf8? chunk with
  | some text => return text
  | none => throw (.fault (.notUtf8 field))

def key : Cursor EntryKey := do
  check 1 .sharedFlag
  let shared ← flag
  let id ← text .queueId
  check 8 .sequenceNumber
  let sequence ← word64
  return ⟨⟨id, shared⟩, sequence⟩

def qos : Cursor Qos := do
  let level ← byte
  match Qos.ofLevel? level.toNat with
  | some qos => return qos
  | none => throw (.fault (.unknownQos level))

def expiry : Cursor (Option UInt64) := do
  let present ← flag
  if present then
    check 8 .expiryInterval
    let seconds ← word64
    return some seconds
  else
    return none

/-- One check stands for the four bytes of the header, and one for the seventeen in front of the
expiry time. -/
def publish : Cursor StoredPublish := do
  check 4 .publishHeader
  let packetId ← word16
  let qos ← qos
  let retain ← flag
  let topic ← text .topic
  let uniqueId ← text .uniqueId
  check (8 + 8 + 1) .publishBody
  let payload ← word64
  let timestamp ← word64
  let expiry ← expiry
  check 8 .estimatedSize
  let size ← word64
  return ⟨presentId packetId, qos, topic, uniqueId, payload, timestamp, expiry, retain, size⟩

def entry : Cursor Entry := do
  check 1 .entryTag
  let tag ← byte
  if tag = publishTag then
    let stored ← publish
    return .publish stored
  else if tag = takenTag then
    let stored ← publish
    return .taken stored
  else if tag = pubrelTag then
    check 2 .packetId
    let packetId ← word16
    return .pubrel packetId
  else throw (.fault (.unknownEntry tag))

def change : Cursor Change := do
  check 1 .changeTag
  let tag ← byte
  let key ← key
  if tag = insertTag then
    let entry ← entry
    return .insert key entry
  else if tag = deleteTag then
    return .delete key
  else if tag = assignTag then
    check 2 .packetId
    let packetId ← word16
    return .assign key (presentId packetId)
  else if tag = markTag then
    check 1 .markerFlag
    let taken ← flag
    return .mark key taken
  else if tag = releaseTag then
    check 2 .packetId
    let packetId ← word16
    return .release key packetId
  else throw (.fault (.unknownChange tag))

def changes : Nat → Cursor (List Change)
  | 0 => return []
  | count + 1 => do
    let change ← change
    let changes ← changes count
    return change :: changes

def front : Cursor (List Change) := do
  check 4 .batchHeader
  let count ← number 4
  changes count

def decode (bytes : Bytes) : Except Stop (List Change) := do
  let (changes, window) ← front (.all bytes)
  if window.bytes.isEmpty then return changes
  else throw (.fault (.trailing window.bytes.length))

end Cursor

/-! What a check has to show -/

section
variable {α β : Type} {count more : Nat} {field : Field} {read : Bytes → Except Fault (α × Bytes)}
  {next : α × Bytes → Except Fault (β × Bytes)}

/-- With fewer bytes than that, the reader misses the field. -/
def Needs (count : Nat) (field : Field) (read : Bytes → Except Fault (α × Bytes)) : Prop :=
  ∀ bytes : Bytes, bytes.length < count → read bytes = .error (.truncated field)

/-- The reader takes so many bytes, whatever they are. -/
structure Takes (count : Nat) (field : Field) (read : Bytes → Except Fault (α × Bytes)) : Prop where
  needs : Needs count field read
  goesOn : ∀ bytes : Bytes, count ≤ bytes.length →
    ∃ value, read bytes = .ok (value, bytes.drop count)

theorem splitExact_of_le {bytes : Bytes} (left : count ≤ bytes.length) :
    splitExact count bytes = some (bytes.take count, bytes.drop count) :=
  splitExact_eq_some_iff.mpr ⟨List.length_take_of_le left, (bytes.take_append_drop count).symm⟩

theorem takes_readChunk : Takes count field (readChunk count field) where
  needs bytes short := by
    rw [readChunk, splitExact_eq_none_iff.mpr short]
  goesOn bytes left := ⟨bytes.take count, by rw [readChunk, splitExact_of_le left]⟩

theorem Takes.map (first : Takes count field read) (change : α → β) :
    Takes count field fun bytes => read bytes >>= fun parts => .ok (change parts.1, parts.2) where
  needs bytes short := by
    dsimp only
    rw [first.needs bytes short]
    rfl
  goesOn bytes left := by
    obtain ⟨value, whole⟩ := first.goesOn bytes left
    exact ⟨change value, by simp only [whole, bind, Except.bind]⟩

theorem takes_readWord64 : Takes 8 field (readWord64 field) :=
  (takes_readChunk.map _).map _

theorem takes_readWord16 : Takes 2 field (readWord16 field) :=
  (takes_readChunk.map _).map _

theorem readByte_eq (field : Field) : readByte field = fun bytes => do
    let (n, bytes) ← readNumber 1 field bytes
    return (UInt8.ofNat n, bytes) := by
  funext bytes
  rcases bytes with - | ⟨byte, rest⟩
  · rfl
  · have value : ofBigEndian [byte] = byte.toNat := by simp [ofBigEndian, ofLittleEndian]
    have single : [byte].length = 1 := rfl
    have number : readNumber 1 field (byte :: rest) = .ok (byte.toNat, rest) :=
      value ▸ readNumber_append field rest single
    simp [number, bind, Except.bind, pure, Except.pure, readByte]

theorem takes_readByte : Takes 1 field (readByte field) :=
  readByte_eq field ▸ (takes_readChunk.map _).map _

theorem takes_readFlag : Takes 1 field (readFlag field) := by
  unfold readFlag
  exact takes_readByte.map fun byte => byte != 0

theorem Needs.bind (first : Needs count field read) :
    Needs count field fun bytes => read bytes >>= next := by
  intro bytes short
  dsimp only
  rw [first bytes short]
  rfl

theorem Takes.bind (first : Takes count field read)
    (later : ∀ value, Needs more field fun bytes => next (value, bytes)) :
    Needs (count + more) field fun bytes => read bytes >>= next := by
  intro bytes short
  dsimp only
  by_cases left : count ≤ bytes.length
  · obtain ⟨value, whole⟩ := first.goesOn bytes left
    have rest : (bytes.drop count).length < more := by
      rw [List.length_drop]
      omega
    rw [whole]
    exact later value _ rest
  · exact first.needs.bind bytes (Nat.lt_of_not_le left)

theorem needs_readText : Needs 2 field (readText field) := by
  unfold readText readNumber
  exact (takes_readChunk.map _).needs.bind

theorem Needs.require (count : Nat) (field : Field) (read : Bytes → Except Fault (α × Bytes)) :
    Needs count field fun bytes => (do
      Batch.require count field bytes
      read bytes) := by
  intro bytes short
  simp only [Batch.require, splitExact_eq_none_iff.mpr short]
  rfl

end

/-! The checks suffice -/

/-- How a cursor ends, as against a reader of its bytes: at the same bytes, of which `known` are
still known to be there, or with the same fault. -/
inductive Agrees {α : Type} (known : Nat) :
    Except Stop (α × Window) → Except Fault (α × Bytes) → Prop
  | goesOn (value : α) (window : Window) (left : known ≤ window.known) :
      Agrees known (.ok (value, window)) (.ok (value, window.bytes))
  | refused (fault : Fault) : Agrees known (.error (.fault fault)) (.error fault)

/-- With `before` bytes known to be there, the cursor does what the reader does, and leaves `after`
known to be there. -/
def Follows {α : Type} (before after : Nat) (cursor : Cursor α)
    (read : Bytes → Except Fault (α × Bytes)) : Prop :=
  ∀ window : Window, before ≤ window.known → Agrees after (cursor window) (read window.bytes)

namespace Follows

variable {α β : Type} {before between after count : Nat} {cursor : Cursor α}
  {read : Bytes → Except Fault (α × Bytes)} {field : Field}

theorem done (value : α) : Follows before before (pure value) fun bytes => .ok (value, bytes) :=
  fun window left => .goesOn value window left

theorem refuse (fault : Fault) : Follows before after (throw (.fault fault) : Cursor α)
    fun _ => .error fault :=
  fun _ _ => .refused fault

theorem bind {next : α → Cursor β} {later : α × Bytes → Except Fault (β × Bytes)}
    (first : Follows before between cursor read)
    (second : ∀ value, Follows between after (next value) fun bytes => later (value, bytes)) :
    Follows before after (cursor >>= next) fun bytes => read bytes >>= later := by
  intro window left
  have ends := first window left
  change Agrees after (cursor window >>= fun parts => next parts.1 parts.2) _
  dsimp only
  generalize cursor window = here, read window.bytes = there at ends
  cases ends with
  | goesOn value window left => exact second value window left
  | refused fault => exact .refused fault

theorem ite {condition : Prop} [Decidable condition] {other : Cursor α}
    {otherwise : Bytes → Except Fault (α × Bytes)} (first : Follows before after cursor read)
    (second : Follows before after other otherwise) :
    Follows before after (if condition then cursor else other)
      fun bytes => if condition then read bytes else otherwise bytes := by
  split <;> assumption

/-- A check is done where the reader could not go on either. -/
theorem check (later : Follows count after cursor read) (needs : Needs count field read) :
    Follows before after (do
      Cursor.check count field
      cursor) read := by
  intro window left
  by_cases enough : count ≤ window.bytes.length
  · have checked := later ⟨window.bytes, max window.known count,
      Nat.max_le.mpr ⟨window.there, enough⟩⟩ (Nat.le_max_right _ _)
    change Agrees after (Cursor.check count field window >>= fun parts => cursor parts.2) _
    rw [Cursor.check, dif_pos enough]
    exact checked
  · change Agrees after (Cursor.check count field window >>= fun parts => cursor parts.2) _
    rw [Cursor.check, dif_neg enough, needs _ (Nat.lt_of_not_le enough)]
    exact .refused _

theorem require (later : Follows count after cursor read) : Follows before after (do
      Cursor.check count field
      cursor) fun bytes => (do
      Batch.require count field bytes
      read bytes) := by
  refine check (fun window left => ?_) (.require count field read)
  have there : splitExact count window.bytes = _ :=
    splitExact_of_le (Nat.le_trans left window.there)
  simp only [Batch.require, there]
  exact later window left

theorem take (count more : Nat) (field : Field) :
    Follows (more + count) more (Cursor.take count) (readChunk count field) := by
  intro window left
  have known : count ≤ window.known := Nat.le_trans (Nat.le_add_left _ _) left
  rw [Cursor.take, if_pos known, readChunk, splitExact_of_le (Nat.le_trans known window.there)]
  exact .goesOn (window.bytes.take count) ⟨_, _, _⟩ (Nat.le_sub_of_add_le left)

theorem number (width : Nat) : Follows (after + width) after (Cursor.number width)
    (readNumber width field) :=
  (take width _ field).bind fun _ => .done _

theorem byte : Follows (after + 1) after Cursor.byte (readByte field) :=
  readByte_eq field ▸ (number 1).bind fun _ => .done _

theorem word16 : Follows (after + 2) after Cursor.word16 (readWord16 field) :=
  (number 2).bind fun _ => .done _

theorem word64 : Follows (after + 8) after Cursor.word64 (readWord64 field) :=
  (number 8).bind fun _ => .done _

theorem flag : Follows (after + 1) after Cursor.flag (readFlag field) := by
  unfold readFlag
  exact byte.bind fun _ => .done _

theorem text : Follows before 0 (Cursor.text field) (readText field) := by
  refine .check ?_ needs_readText
  unfold readText
  refine (number 2).bind fun length => ?_
  have taken : Follows length 0 (Cursor.take length) (readChunk length field) := by
    simpa using take length 0 field
  refine .check (taken.bind fun chunk => ?_) takes_readChunk.needs.bind
  dsimp only
  cases ofUtf8? chunk with
  | none => exact .refuse _
  | some text => exact .done _

theorem key : Follows before 0 Cursor.key readKey := by
  unfold readKey
  refine .check (flag.bind fun _ => text.bind fun _ => .check (word64.bind fun _ => .done _) ?_) ?_
  · exact takes_readWord64.needs.bind
  · exact takes_readFlag.needs.bind

theorem qos : Follows (after + 1) after Cursor.qos readQos := by
  unfold readQos
  refine byte.bind fun level => ?_
  dsimp only
  cases Qos.ofLevel? level.toNat with
  | none => exact .refuse _
  | some qos => exact .done _

theorem expiry : Follows 1 0 Cursor.expiry readExpiry := by
  unfold readExpiry
  refine flag.bind fun present => .ite (.check (word64.bind fun _ => .done _) ?_) (.done _)
  exact takes_readWord64.needs.bind

/-- The seventeen bytes in front of the expiry time are read in three parts, which miss the same
field. -/
theorem publish : Follows before 0 Cursor.publish readPublish := by
  unfold readPublish
  refine .require <| word16.bind fun _ => qos.bind fun _ => flag.bind fun _ => text.bind fun _ =>
    text.bind fun _ => .check (word64.bind fun _ => word64.bind fun _ => expiry.bind fun _ =>
    .check (word64.bind fun _ => .done _) ?_) ?_
  · exact takes_readWord64.needs.bind
  · show Needs (8 + (8 + 1)) .publishBody _
    refine takes_readWord64.bind fun _ => ?_
    refine takes_readWord64.bind fun _ => ?_
    exact takes_readFlag.needs.bind.bind

theorem entry : Follows before 0 Cursor.entry readEntry := by
  unfold readEntry
  refine .check (byte.bind fun _ => .ite (publish.bind fun _ => .done _) <|
    .ite (publish.bind fun _ => .done _) <|
    .ite (.check (word16.bind fun _ => .done _) ?_) (.refuse _)) takes_readByte.needs.bind
  exact takes_readWord16.needs.bind

theorem change : Follows before 0 Cursor.change readChange := by
  unfold readChange
  refine .check (byte.bind fun _ => key.bind fun _ => .ite (entry.bind fun _ => .done _) <|
    .ite (.done _) <| .ite (.check (word16.bind fun _ => .done _) ?_) <|
    .ite (.check (flag.bind fun _ => .done _) ?_) <|
    .ite (.check (word16.bind fun _ => .done _) ?_) (.refuse _)) takes_readByte.needs.bind
  · exact takes_readWord16.needs.bind
  · exact takes_readFlag.needs.bind
  · exact takes_readWord16.needs.bind

theorem changes (count : Nat) : Follows 0 0 (Cursor.changes count) (readChanges count) := by
  induction count with
  | zero => exact .done []
  | succ count ih => exact change.bind fun _ => ih.bind fun _ => .done _

theorem front : Follows 0 0 Cursor.front readFront :=
  .check ((number 4).bind fun _ => .changes _) (takes_readChunk.map _).needs.bind

end Follows

/-- Read with the checks apart, a batch reads as it does otherwise: no read is left uncovered. -/
theorem Cursor.decode_eq (bytes : Bytes) : decode bytes = (Batch.decode bytes).mapError .fault := by
  have ends := Follows.front (.all bytes) (Nat.zero_le _)
  rw [Batch.decode_eq, decode]
  change Agrees 0 _ (readFront bytes) at ends
  generalize front (.all bytes) = here, readFront bytes = there at ends
  cases ends with
  | refused fault => rfl
  | goesOn changes window _ =>
    simp only [bind, Except.bind]
    cases window.bytes.isEmpty <;> rfl

/-- A batch tells where it ends: cut short it is missed something of, and bytes behind it are
noticed. And whatever the bytes are, the checks of a reading cover all that it takes. -/
theorem batches_delimit_themselves :
    (∀ (changes : List Change) (batch : Bytes), changes.length < UInt32.size →
      encode changes = .ok batch →
      (∀ part more, batch = part ++ more → more ≠ [] →
        ∃ field, decode part = .error (.truncated field)) ∧
      ∀ more, more ≠ [] → decode (batch ++ more) = .error (.trailing more.length)) ∧
    ∀ bytes, Cursor.decode bytes = (decode bytes).mapError .fault := by
  refine ⟨fun changes batch few written => ?_, Cursor.decode_eq⟩
  obtain ⟨short, rfl⟩ := encode_eq_ok_iff.mp written
  exact ⟨fun part more split cut => decode_of_cut short few split cut,
    fun more behind => decode_append short few behind⟩

/-- The removal of one message, as bytes: the first seven of them, and all with one more. -/
theorem batches_delimit_themselves_removal :
    let changes := [Change.delete ⟨⟨"c", false⟩, 7⟩]
    let batch : Bytes := [0, 0, 0, 1, 2, 0, 0, 1, 99, 0, 0, 0, 0, 0, 0, 0, 7]
    changes.length < UInt32.size ∧ encode changes = .ok batch ∧
      (∃ field, decode (batch.take 7) = .error (.truncated field)) ∧
      decode (batch ++ [0]) = .error (.trailing 1) ∧
      Cursor.decode (batch.take 7) = (decode (batch.take 7)).mapError .fault := by
  intro changes batch
  have few : changes.length < UInt32.size := by decide
  have short : Fits (changes.flatMap changeTexts) := by
    change ∀ t ∈ [(Field.queueId, "c")], fits t.2 = true
    decide +kernel
  have written : encode changes = .ok batch :=
    encode_eq_ok_iff.mpr ⟨short, by decide +kernel⟩
  obtain ⟨cut, behind⟩ := batches_delimit_themselves.1 changes batch few written
  have whole : batch = batch.take 7 ++ batch.drop 7 := (List.take_append_drop 7 batch).symm
  exact ⟨few, written, cut _ _ whole (by decide),
    behind [0] (by decide), batches_delimit_themselves.2 _⟩

end DeliveryQueue.Batch
