import DeliveryQueue.Proofs.RoundTrip
import Mathlib.Algebra.Group.Nat.Hom

/-!
What can be read as a batch could have been written as one. The same changes may stand in different
bytes: a flag says yes with any byte but zero, and is written as one. Walking over a batch by the
lengths in it finds its flags (`Batch.flags`); bytes that read as changes are what is written for
them up to these (`Batch.Spells`), so reading and writing undo each other in both directions
(`Batch.batches_round_trip`).
-/
namespace DeliveryQueue

namespace Change

/-- The packet id of the change that may be absent. -/
def optionalId : Change → Option UInt16
  | insert _ entry => entry.message?.bind StoredPublish.packetId
  | assign _ packetId => packetId
  | delete _ | mark .. | release .. => none

/-- Every text in the change is short enough for its two-byte length. -/
structure Short (change : Change) : Prop where
  queue : change.key.queue.id.utf8ByteSize ≤ 65535
  message : ∀ stored, change.inserted?.bind Entry.message? = some stored →
    stored.topic.utf8ByteSize ≤ 65535 ∧ stored.uniqueId.utf8ByteSize ≤ 65535

theorem spelled_eq_self {change : Change} (named : change.optionalId ≠ some noPacketId) :
    change.spelled = change := by
  cases change with
  | insert key entry =>
    cases entry with
    | pubrel => rfl
    | publish stored | taken stored =>
      have kept : spelledId stored.packetId = stored.packetId := if_neg named
      simp only [spelled, Entry.spelled, StoredPublish.spelled, kept]
  | assign key packetId =>
    have kept : spelledId packetId = packetId := if_neg named
    rw [spelled, kept]
  | delete | mark | release => rfl

end Change

theorem Qos.level_of_ofLevel? {level : UInt8} {qos : Qos}
    (known : ofLevel? level.toNat = some qos) : qos.level = level := by
  apply UInt8.toNat_inj.mp
  unfold ofLevel? at known
  split at known <;> cases known <;> exact Eq.symm ‹_›

namespace Batch

/-! Where the flags stand -/

/-- Goes over the front of some bytes: the flags there, and the bytes behind. -/
abbrev Walk := Bytes → Bytes × Bytes

namespace Walk

def skip (count : Nat) : Walk := fun bytes => ([], bytes.drop count)

def flag : Walk := fun bytes => (bytes.take 1, bytes.drop 1)

/-- Over a text and the two bytes of its length. -/
def text : Walk := fun bytes => ([], bytes.drop (2 + ofBigEndian (bytes.take 2)))

def andThen (first second : Walk) : Walk := fun bytes =>
  ((first bytes).1 ++ (second (first bytes).2).1, (second (first bytes).2).2)

/-- The next byte says where to go. -/
def look (next : UInt8 → Walk) : Walk := fun bytes => (bytes.head?.elim (skip 0) next) bytes

def key : Walk := flag.andThen (text.andThen (skip 8))

def expiry : Walk := look fun present => if present = 0 then flag else flag.andThen (skip 8)

def publish : Walk :=
  (skip 2).andThen ((skip 1).andThen (flag.andThen (text.andThen (text.andThen
    ((skip 8).andThen ((skip 8).andThen (expiry.andThen (skip 8))))))))

def entry : Walk :=
  look fun tag => (skip 1).andThen (if tag = pubrelTag then skip 2 else publish)

def change : Walk :=
  look fun tag => (skip 1).andThen (key.andThen (
    if tag = insertTag then entry
    else if tag = deleteTag then skip 0
    else if tag = markTag then flag
    else skip 2))

def changes : Nat → Walk
  | 0 => skip 0
  | count + 1 => change.andThen (changes count)

end Walk

/-- The bytes of a batch that say yes or no: whether a queue is shared, whether a message is to be
retained, whether it expires, and whether it is taken. -/
def flags (batch : Bytes) : Bytes := (Walk.changes (ofBigEndian (batch.take 4)) (batch.drop 4)).1

/-- The bytes begin with what is `written`, up to the spelling of the flags that the walk finds in
them. -/
def Spells (walk : Walk) (written bytes rest : Bytes) : Prop :=
  ∃ front, bytes = front ++ rest ∧ front.length = written.length ∧ (walk bytes).2 = rest ∧
    (front = written ↔ ∀ flag ∈ (walk bytes).1, flag = 0 ∨ flag = 1)

namespace Spells

variable {first second : Walk} {written more bytes middle rest : Bytes}

theorem andThen (front : Spells first written bytes middle)
    (back : Spells second more middle rest) :
    Spells (first.andThen second) (written ++ more) bytes rest := by
  obtain ⟨a, rfl, length, left, plain⟩ := front
  obtain ⟨b, rfl, length', left', plain'⟩ := back
  refine ⟨a ++ b, (List.append_assoc ..).symm, by simp [length, length'], ?_, ?_⟩
  · simp only [Walk.andThen, left, left']
  · have both : a ++ b = written ++ more ↔ a = written ∧ b = more :=
      ⟨fun same => List.append_inj same length, fun ⟨one, two⟩ => by rw [one, two]⟩
    simp only [both, plain, plain', Walk.andThen, left, List.forall_mem_append]

theorem skip {count : Nat} (length : written.length = count) :
    Spells (.skip count) written (written ++ rest) rest :=
  ⟨written, rfl, rfl, by simp [Walk.skip, ← length], by simp [Walk.skip]⟩

theorem byte (b : UInt8) : Spells (.skip 1) [b] (b :: rest) rest := skip rfl

theorem word16 (n : UInt16) : Spells (.skip 2) (Batch.word16 n) (Batch.word16 n ++ rest) rest :=
  skip (length_bigEndian 2 n.toNat)

theorem word64 (n : UInt64) : Spells (.skip 8) (Batch.word64 n) (Batch.word64 n ++ rest) rest :=
  skip (length_bigEndian 8 n.toNat)

theorem flag (b : UInt8) : Spells .flag [flagByte (b != 0)] (b :: rest) rest := by
  refine ⟨[b], rfl, rfl, rfl, ?_⟩
  by_cases zero : b = 0
  · simp [Walk.flag, flagByte, zero]
  · simp [Walk.flag, flagByte, zero]

theorem text {text : String} (short : fits text = true) :
    Spells .text (textBytes text) (textBytes text ++ rest) rest := by
  have size : (utf8 text).length < span 2 :=
    Nat.lt_of_le_of_lt (by simpa [fits, length_utf8] using short) (by decide : 65535 < span 2)
  refine ⟨textBytes text, rfl, rfl, ?_, by simp [Walk.text]⟩
  have start : (textBytes text ++ rest).take 2 = bigEndian 2 (utf8 text).length := by
    rw [textBytes, List.append_assoc, List.take_left' (length_bigEndian 2 _)]
  have whole : (textBytes text).length = 2 + (utf8 text).length := by simp [textBytes]
  simp only [Walk.text, start, ofBigEndian_bigEndian size]
  rw [← whole, List.drop_left]

/-- The walk goes where the first byte says. -/
theorem look {next : UInt8 → Walk} {b : UInt8} (front : Spells (next b) written (b :: bytes) rest) :
    Spells (.look next) written (b :: bytes) rest := front

end Spells

/-! What was read is what is written for it, up to its flags -/

section Readers
variable {field : Field} {bytes rest : Bytes}

theorem of_bind_eq_ok {α β : Type} {first : Except Fault α} {next : α → Except Fault β} {b : β}
    (read : first >>= next = .ok b) : ∃ a, first = .ok a ∧ next a = .ok b := by
  cases first with
  | error => cases read
  | ok a => exact ⟨a, rfl, read⟩

theorem of_readByte {b : UInt8} (read : readByte field bytes = .ok (b, rest)) :
    bytes = b :: rest := by
  cases bytes with
  | nil => cases read
  | cons => cases read; rfl

theorem of_readChunk {count : Nat} {chunk : Bytes}
    (read : readChunk count field bytes = .ok (chunk, rest)) :
    chunk.length = count ∧ bytes = chunk ++ rest := by
  unfold readChunk at read
  split at read
  · rename_i parts split
    cases read
    exact splitExact_eq_some_iff.mp split
  · cases read

theorem of_readNumber {width n : Nat} (read : readNumber width field bytes = .ok (n, rest)) :
    n < span width ∧ bytes = bigEndian width n ++ rest := by
  obtain ⟨⟨chunk, _⟩, first, read⟩ := of_bind_eq_ok read
  cases read
  obtain ⟨rfl, rfl⟩ := of_readChunk first
  exact ⟨ofBigEndian_lt chunk, by rw [bigEndian_ofBigEndian]⟩

theorem of_readWord16 {n : UInt16} (read : readWord16 field bytes = .ok (n, rest)) :
    bytes = word16 n ++ rest := by
  obtain ⟨⟨m, _⟩, first, read⟩ := of_bind_eq_ok read
  cases read
  obtain ⟨small, rfl⟩ := of_readNumber first
  rw [word16, UInt16.toNat_ofNat_of_lt' small]

theorem of_readWord64 {n : UInt64} (read : readWord64 field bytes = .ok (n, rest)) :
    bytes = word64 n ++ rest := by
  obtain ⟨⟨m, _⟩, first, read⟩ := of_bind_eq_ok read
  cases read
  obtain ⟨small, rfl⟩ := of_readNumber first
  rw [word64, UInt64.toNat_ofNat_of_lt' small]

theorem of_readFlag {flag : Bool} (read : readFlag field bytes = .ok (flag, rest)) :
    Spells .flag [flagByte flag] bytes rest := by
  obtain ⟨⟨b, _⟩, first, read⟩ := of_bind_eq_ok read
  cases read
  rw [of_readByte first]
  exact .flag b

theorem of_readText {text : String} (read : readText field bytes = .ok (text, rest)) :
    fits text = true ∧ Spells .text (textBytes text) bytes rest := by
  obtain ⟨⟨length, more⟩, first, read⟩ := of_bind_eq_ok read
  obtain ⟨⟨chunk, behind⟩, second, found⟩ := of_bind_eq_ok read
  obtain ⟨small, rfl⟩ := of_readNumber first
  obtain ⟨rfl, rfl⟩ := of_readChunk second
  dsimp only at found
  split at found
  · rename_i known decoded
    cases found
    obtain rfl := utf8_of_ofUtf8? decoded
    have short : fits text = true :=
      decide_eq_true (Nat.le_of_lt_succ (show (utf8 text).length < 65536 from small))
    have written : Spells .text (textBytes text) (textBytes text ++ rest) rest := .text short
    rw [textBytes, List.append_assoc] at written
    exact ⟨short, written⟩
  · cases found

theorem of_presentId {id : UInt16} :
    (presentId id).getD noPacketId = id ∧ presentId id ≠ some noPacketId := by
  unfold presentId
  split
  · rename_i absent
    exact ⟨absent.symm, nofun⟩
  · rename_i present
    exact ⟨rfl, fun same => present (Option.some.inj same)⟩

theorem of_readKey {key : EntryKey} (read : readKey bytes = .ok (key, rest)) :
    fits key.queue.id = true ∧ Spells .key (keyBytes key) bytes rest := by
  obtain ⟨⟨shared, _⟩, first, read⟩ := of_bind_eq_ok read
  obtain ⟨⟨id, _⟩, second, read⟩ := of_bind_eq_ok read
  obtain ⟨⟨sequence, _⟩, third, read⟩ := of_bind_eq_ok read
  cases read
  obtain ⟨short, text⟩ := of_readText second
  obtain rfl := of_readWord64 third
  exact ⟨short, (of_readFlag first).andThen (text.andThen (.word64 sequence))⟩

theorem of_readQos {qos : Qos} (read : readQos bytes = .ok (qos, rest)) :
    bytes = qos.level :: rest := by
  obtain ⟨⟨level, _⟩, first, read⟩ := of_bind_eq_ok read
  dsimp only at read
  split at read
  · rename_i found known
    cases read
    rw [of_readByte first, ← Qos.level_of_ofLevel? known]
  · cases read

theorem of_readExpiry {expiry : Option UInt64} (read : readExpiry bytes = .ok (expiry, rest)) :
    Spells .expiry (expiryBytes expiry) bytes rest := by
  obtain ⟨⟨present, _⟩, first, found⟩ := of_bind_eq_ok read
  obtain ⟨⟨b, _⟩, head, met⟩ := of_bind_eq_ok first
  cases met
  obtain rfl := of_readByte head
  by_cases zero : b = 0
  · subst zero
    cases found
    exact .look (.flag 0)
  · have present : (b != 0) = true := by simpa using zero
    dsimp only at found
    rw [if_pos present] at found
    obtain ⟨⟨seconds, _⟩, second, found⟩ := of_bind_eq_ok found
    cases found
    obtain rfl := of_readWord64 second
    have written : expiryBytes (some seconds) = [flagByte (b != 0)] ++ word64 seconds := by
      rw [present]
      rfl
    rw [written]
    refine .look ?_
    rw [if_neg zero]
    exact (Spells.flag b).andThen (.word64 seconds)

theorem of_readPublish {stored : StoredPublish} (read : readPublish bytes = .ok (stored, rest)) :
    Fits [(.topic, stored.topic), (.uniqueId, stored.uniqueId)] ∧
      stored.packetId ≠ some noPacketId ∧ Spells .publish (publishBytes stored) bytes rest := by
  obtain ⟨_, -, read⟩ := of_bind_eq_ok read
  obtain ⟨⟨id, _⟩, first, read⟩ := of_bind_eq_ok read
  obtain ⟨⟨qos, _⟩, second, read⟩ := of_bind_eq_ok read
  obtain ⟨⟨retain, _⟩, third, read⟩ := of_bind_eq_ok read
  obtain ⟨⟨topic, _⟩, fourth, read⟩ := of_bind_eq_ok read
  obtain ⟨⟨uniqueId, _⟩, fifth, read⟩ := of_bind_eq_ok read
  obtain ⟨⟨payload, _⟩, sixth, read⟩ := of_bind_eq_ok read
  obtain ⟨⟨timestamp, _⟩, seventh, read⟩ := of_bind_eq_ok read
  obtain ⟨⟨expiry, _⟩, eighth, read⟩ := of_bind_eq_ok read
  obtain ⟨⟨size, _⟩, ninth, read⟩ := of_bind_eq_ok read
  cases read
  obtain rfl := of_readWord16 first
  obtain rfl := of_readQos second
  obtain ⟨topicFits, topicSpells⟩ := of_readText fourth
  obtain ⟨uniqueFits, uniqueSpells⟩ := of_readText fifth
  obtain rfl := of_readWord64 sixth
  obtain rfl := of_readWord64 seventh
  obtain rfl := of_readWord64 ninth
  refine ⟨by simp [Fits, topicFits, uniqueFits], of_presentId.2, ?_⟩
  simp only [publishBytes, idBytes, of_presentId.1, List.append_assoc]
  exact (Spells.word16 id).andThen ((Spells.byte qos.level).andThen ((of_readFlag third).andThen
    (topicSpells.andThen (uniqueSpells.andThen ((Spells.word64 payload).andThen
      ((Spells.word64 timestamp).andThen ((of_readExpiry eighth).andThen (.word64 size))))))))

theorem of_readEntry {entry : Entry} (read : readEntry bytes = .ok (entry, rest)) :
    Fits (entryTexts entry) ∧ entry.message?.bind StoredPublish.packetId ≠ some noPacketId ∧
      Spells .entry (entryBytes entry) bytes rest := by
  obtain ⟨⟨tag, _⟩, first, found⟩ := of_bind_eq_ok read
  obtain rfl := of_readByte first
  dsimp only at found
  split at found
  · rename_i publish
    subst publish
    obtain ⟨⟨stored, _⟩, second, found⟩ := of_bind_eq_ok found
    cases found
    obtain ⟨short, named, spells⟩ := of_readPublish second
    exact ⟨short, named, .look ((Spells.byte publishTag).andThen spells)⟩
  split at found
  · rename_i taken
    subst taken
    obtain ⟨⟨stored, _⟩, second, found⟩ := of_bind_eq_ok found
    cases found
    obtain ⟨short, named, spells⟩ := of_readPublish second
    exact ⟨short, named, .look ((Spells.byte takenTag).andThen spells)⟩
  split at found
  · rename_i pubrel
    subst pubrel
    obtain ⟨⟨packetId, _⟩, second, found⟩ := of_bind_eq_ok found
    cases found
    obtain rfl := of_readWord16 second
    exact ⟨by simp [Fits, entryTexts, Entry.message?], nofun,
      .look ((Spells.byte pubrelTag).andThen (.word16 packetId))⟩
  · cases found

theorem of_readChange {change : Change} (read : readChange bytes = .ok (change, rest)) :
    Fits (changeTexts change) ∧ change.optionalId ≠ some noPacketId ∧
      Spells .change (changeBytes change) bytes rest := by
  obtain ⟨⟨tag, _⟩, first, tagged⟩ := of_bind_eq_ok read
  obtain rfl := of_readByte first
  obtain ⟨⟨key, _⟩, second, keyed⟩ := of_bind_eq_ok tagged
  obtain ⟨short, spells⟩ := of_readKey second
  have texts : Fits [(.queueId, key.queue.id)] := by simpa [Fits] using short
  dsimp only at keyed
  split at keyed
  · rename_i insert
    subst insert
    obtain ⟨⟨entry, _⟩, third, found⟩ := of_bind_eq_ok keyed
    cases found
    obtain ⟨entryShort, named, entrySpells⟩ := of_readEntry third
    refine ⟨?_, named, .look ((Spells.byte insertTag).andThen (spells.andThen entrySpells))⟩
    exact List.forall_mem_cons.mpr ⟨short, entryShort⟩
  split at keyed
  · rename_i delete
    subst delete
    cases keyed
    refine ⟨texts, by rintro ⟨⟩, ?_⟩
    have done : Spells (.skip 0) [] rest rest := .skip rfl
    have ends := spells.andThen done
    rw [List.append_nil] at ends
    exact .look ((Spells.byte deleteTag).andThen ends)
  split at keyed
  · rename_i assign
    subst assign
    obtain ⟨⟨packetId, _⟩, third, found⟩ := of_bind_eq_ok keyed
    cases found
    obtain rfl := of_readWord16 third
    refine ⟨texts, of_presentId.2, ?_⟩
    simp only [changeBytes, idBytes, of_presentId.1]
    exact .look ((Spells.byte assignTag).andThen (spells.andThen (.word16 packetId)))
  split at keyed
  · rename_i mark
    subst mark
    obtain ⟨⟨taken, _⟩, third, found⟩ := of_bind_eq_ok keyed
    cases found
    exact ⟨texts, by rintro ⟨⟩,
      .look ((Spells.byte markTag).andThen (spells.andThen (of_readFlag third)))⟩
  split at keyed
  · rename_i release
    subst release
    obtain ⟨⟨packetId, _⟩, third, found⟩ := of_bind_eq_ok keyed
    cases found
    obtain rfl := of_readWord16 third
    exact ⟨texts, by rintro ⟨⟩,
      .look ((Spells.byte releaseTag).andThen (spells.andThen (.word16 packetId)))⟩
  · cases keyed

theorem of_readChanges {count : Nat} {changes : List Change}
    (read : readChanges count bytes = .ok (changes, rest)) :
    changes.length = count ∧ Fits (changes.flatMap changeTexts) ∧
      (∀ change ∈ changes, change.optionalId ≠ some noPacketId) ∧
      Spells (.changes count) (changes.flatMap changeBytes) bytes rest := by
  induction count generalizing bytes changes with
  | zero =>
    cases read
    have done : Spells (.skip 0) [] rest rest := .skip rfl
    exact ⟨rfl, by simp [Fits], by simp, done⟩
  | succ count ih =>
    obtain ⟨⟨change, _⟩, first, found⟩ := of_bind_eq_ok read
    obtain ⟨⟨others, _⟩, second, found⟩ := of_bind_eq_ok found
    cases found
    obtain ⟨short, named, spells⟩ := of_readChange first
    obtain ⟨length, allShort, allNamed, allSpell⟩ := ih second
    refine ⟨congrArg (· + 1) length, ?_, List.forall_mem_cons.mpr ⟨named, allNamed⟩, ?_⟩
    · rw [List.flatMap_cons]
      exact List.forall_mem_append.mpr ⟨short, allShort⟩
    · rw [List.flatMap_cons]
      exact spells.andThen allSpell

theorem of_decode {batch : Bytes} {changes : List Change} (read : decode batch = .ok changes) :
    changes.length < UInt32.size ∧ Fits (changes.flatMap changeTexts) ∧
      (∀ change ∈ changes, change.optionalId ≠ some noPacketId) ∧
      (Batch.bytes changes).length = batch.length ∧
      (Batch.bytes changes = batch ↔ ∀ flag ∈ flags batch, flag = 0 ∨ flag = 1) := by
  obtain ⟨⟨count, behind⟩, first, counted⟩ := of_bind_eq_ok read
  obtain ⟨⟨found, left⟩, second, whole⟩ := of_bind_eq_ok counted
  dsimp only at whole
  split at whole
  · rename_i nothing
    obtain rfl := List.isEmpty_iff.mp nothing
    cases whole
    obtain ⟨small, rfl⟩ := of_readNumber first
    obtain ⟨rfl, short, named, front, rfl, length, -, plain⟩ := of_readChanges second
    refine ⟨small, short, named, by simp [Batch.bytes, length], ?_⟩
    have count : ofBigEndian ((bigEndian 4 changes.length ++ (front ++ [])).take 4) =
        changes.length := by
      rw [List.take_left' (length_bigEndian 4 _), ofBigEndian_bigEndian small]
    rw [flags, count, List.drop_left' (length_bigEndian 4 _), ← plain, List.append_nil,
      Batch.bytes, List.append_cancel_left_eq, eq_comm]
  · cases whole

end Readers

/-! Both directions -/

theorem fits_changeTexts_iff {change : Change} : Fits (changeTexts change) ↔ change.Short := by
  have texts : Fits (changeTexts change) ↔ fits change.key.queue.id = true ∧
      ∀ stored, change.inserted?.bind Entry.message? = some stored →
        fits stored.topic = true ∧ fits stored.uniqueId = true := by
    rw [Fits, changeTexts, List.forall_mem_cons]
    cases change.inserted? with
    | none => simp
    | some entry => cases entry <;> simp [entryTexts, Entry.message?]
  simp only [texts, fits, decide_eq_true_eq]
  constructor
  · rintro ⟨queue, message⟩
    exact ⟨queue, message⟩
  · intro short
    exact ⟨short.queue, short.message⟩

theorem fits_flatMap_iff {changes : List Change} :
    Fits (changes.flatMap changeTexts) ↔ ∀ change ∈ changes, change.Short := by
  simp only [← fits_changeTexts_iff, Fits, List.forall_mem_flatMap]

theorem map_spelled {changes : List Change}
    (named : ∀ change ∈ changes, change.optionalId ≠ some noPacketId) :
    changes.map Change.spelled = changes :=
  (List.map_congr_left fun change member => Change.spelled_eq_self (named change member)).trans
    (List.map_id changes)

/-- Batches and their bytes go over into each other. A list of fewer than 2^32 changes is written
exactly when its texts are short enough, and is read as it was but for the packet ids zero that may
be absent. Bytes that are read as changes are as many as those written for these changes, which read
the same; they are the same bytes exactly when every flag in them is zero or one. -/
theorem batches_round_trip (changes : List Change) (entries : List (EntryKey × Entry))
    (batch : Bytes) :
    (changes.length < 2 ^ 32 →
      ((∃ written, encode changes = .ok written) ↔ ∀ change ∈ changes, change.Short) ∧
      ∀ written, encode changes = .ok written →
        decode written = .ok (changes.map Change.spelled) ∧
        ((∀ change ∈ changes, change.optionalId ≠ some noPacketId) →
          decode written = .ok changes)) ∧
    encodeSnapshot entries = encode (entries.map fun e => .insert e.1 e.2) ∧
    ∀ found, decode batch = .ok found →
      ∃ written, encode found = .ok written ∧ written.length = batch.length ∧
        decode written = .ok found ∧
        (written = batch ↔ ∀ flag ∈ flags batch, flag = 0 ∨ flag = 1) := by
  refine ⟨fun few => ⟨?_, ?_⟩, encodeSnapshot_eq_encode entries, fun found read => ?_⟩
  · simp only [encode_eq_ok_iff, exists_and_left, exists_eq, and_true, fits_flatMap_iff]
  · intro written encoded
    obtain ⟨short, rfl⟩ := encode_eq_ok_iff.mp encoded
    have back := decode_bytes short few
    exact ⟨back, fun named => by rw [back, map_spelled named]⟩
  · obtain ⟨few, short, named, length, plain⟩ := of_decode read
    have back := decode_bytes short few
    rw [map_spelled named] at back
    exact ⟨_, encode_eq_ok_iff.mpr ⟨short, rfl⟩, length, back, plain⟩

/-- An id that may be absent and is zero, and a batch that marks its queue as shared with the byte
seven. -/
theorem batches_round_trip_sample :
    let key : EntryKey := ⟨⟨"c", true⟩, 0⟩
    let zero : List Change := [.assign key (some 0)]
    let seven : Bytes := [0, 0, 0, 1, 2, 7, 0, 1, 99, 0, 0, 0, 0, 0, 0, 0, 0]
    let one : Bytes := [0, 0, 0, 1, 2, 1, 0, 1, 99, 0, 0, 0, 0, 0, 0, 0, 0]
    (∃ written, encode zero = .ok written ∧ decode written = .ok [.assign key none]) ∧
      decode seven = .ok [.delete key] ∧ flags seven = [7] ∧
      encode [.delete key] = .ok one ∧ one ≠ seven := by
  intro key zero seven one
  have read : decode seven = .ok [.delete key] := rfl
  have written : encode [.delete key] = .ok one :=
    encode_eq_ok_iff.mpr ⟨by unfold Fits; decide +kernel, by decide +kernel⟩
  obtain ⟨forth, -, back⟩ := batches_round_trip zero [] seven
  obtain ⟨possible, reads⟩ := forth (by decide)
  obtain ⟨bytes, encoded⟩ := possible.mpr fun change member => by
    obtain rfl := List.mem_singleton.mp member
    exact ⟨by decide +kernel, nofun⟩
  obtain ⟨again, encodedAgain, -, -, plain⟩ := back _ read
  have flagged : flags seven = [7] := by decide +kernel
  obtain rfl : again = one := Except.ok.inj (encodedAgain.symm.trans written)
  refine ⟨⟨bytes, encoded, (reads bytes encoded).1⟩, read, flagged, written, fun same => ?_⟩
  have either := plain.mp same 7 (by rw [flagged]; exact List.mem_singleton_self 7)
  exact absurd either (by decide)

end Batch

end DeliveryQueue
