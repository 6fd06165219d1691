import DeliveryQueue.Queue.Change

/-!
The bytes of a batch of changes: the number of changes in four bytes, then the changes one after the
other. Numbers stand with their highest byte first; a text follows its length in two bytes, so a
text of more than 65535 bytes cannot be written. An absent packet id is written as zero.
-/
namespace DeliveryQueue.Batch

/-- The parts of a batch that a reader may miss. -/
inductive Field
  | batchHeader
  | changeTag
  | sharedFlag
  | queueId
  | sequenceNumber
  | packetId
  | markerFlag
  | entryTag
  | publishHeader
  | topic
  | uniqueId
  | publishBody
  | expiryInterval
  | estimatedSize
  deriving DecidableEq, Repr

def Field.text : Field → String
  | batchHeader => "batch header"
  | changeTag => "change tag"
  | sharedFlag => "shared flag"
  | queueId => "queue id"
  | sequenceNumber => "sequence number"
  | packetId => "packet id"
  | markerFlag => "marker flag"
  | entryTag => "entry tag"
  | publishHeader => "publish header"
  | topic => "topic"
  | uniqueId => "unique id"
  | publishBody => "publish body"
  | expiryInterval => "expiry interval"
  | estimatedSize => "estimated size"

/-- Why bytes are no batch, or why changes cannot be written as one. -/
inductive Fault
  | truncated (reading : Field)
  | unknownChange (tag : UInt8)
  | unknownEntry (tag : UInt8)
  | unknownQos (level : UInt8)
  | notUtf8 (reading : Field)
  | trailing (count : Nat)
  | tooLong (writing : Field)
  deriving DecidableEq, Repr

def Fault.message : Fault → String
  | truncated field => "journal record truncated while reading " ++ field.text
  | unknownChange tag => "invalid change tag " ++ toString tag.toNat
  | unknownEntry tag => "invalid entry tag " ++ toString tag.toNat
  | unknownQos level => "invalid QoS value " ++ toString level.toNat ++ " in journal"
  | notUtf8 field => field.text ++ " in journal is not valid UTF-8"
  | trailing count => toString count ++ " trailing bytes after batch"
  | tooLong field => field.text ++ " too long for journal record"

/-! Writing -/

def insertTag : UInt8 := 1
def deleteTag : UInt8 := 2
def assignTag : UInt8 := 3
def markTag : UInt8 := 4
def releaseTag : UInt8 := 5

def publishTag : UInt8 := 1
def pubrelTag : UInt8 := 2
def takenTag : UInt8 := 3

def word16 (n : UInt16) : Bytes := bigEndian 2 n.toNat

def word64 (n : UInt64) : Bytes := bigEndian 8 n.toNat

def idBytes (packetId : Option UInt16) : Bytes := word16 (packetId.getD noPacketId)

def textBytes (text : String) : Bytes := bigEndian 2 (utf8 text).length ++ utf8 text

def keyBytes (key : EntryKey) : Bytes :=
  flagByte key.queue.shared :: textBytes key.queue.id ++ word64 key.sequence

def expiryBytes : Option UInt64 → Bytes
  | none => [0]
  | some seconds => 1 :: word64 seconds

def publishBytes (stored : StoredPublish) : Bytes :=
  idBytes stored.packetId ++ [stored.qos.level, flagByte stored.retain] ++
    textBytes stored.topic ++ textBytes stored.uniqueId ++ word64 stored.payload ++
    word64 stored.timestamp ++ expiryBytes stored.expiry ++ word64 stored.size

def entryBytes : Entry → Bytes
  | .publish stored => publishTag :: publishBytes stored
  | .pubrel packetId => pubrelTag :: word16 packetId
  | .taken stored => takenTag :: publishBytes stored

def changeBytes : Change → Bytes
  | .insert key entry => insertTag :: keyBytes key ++ entryBytes entry
  | .delete key => deleteTag :: keyBytes key
  | .assign key packetId => assignTag :: keyBytes key ++ idBytes packetId
  | .mark key taken => markTag :: keyBytes key ++ [flagByte taken]
  | .release key packetId => releaseTag :: keyBytes key ++ word16 packetId

/-- The texts of an entry, in the order in which they are written. -/
def entryTexts (entry : Entry) : List (Field × String) :=
  match entry.message? with
  | some stored => [(.topic, stored.topic), (.uniqueId, stored.uniqueId)]
  | none => []

/-- The texts of a change, in the order in which they are written. -/
def changeTexts (change : Change) : List (Field × String) :=
  (.queueId, change.key.queue.id) :: (change.inserted?.map entryTexts).getD []

/-- Whether a text fits its two-byte length. -/
def fits (text : String) : Bool := text.utf8ByteSize ≤ 65535

/-- The first text that does not fit. -/
def overlong? (texts : List (Field × String)) : Option Field :=
  (texts.find? fun t => !fits t.2).map Prod.fst

def encode (changes : List Change) : Except Fault Bytes :=
  match overlong? (changes.flatMap changeTexts) with
  | some field => .error (.tooLong field)
  | none => .ok (bigEndian 4 changes.length ++ changes.flatMap changeBytes)

/-- A whole bucket as one batch, each entry an insertion. -/
def encodeSnapshot (entries : List (EntryKey × Entry)) : Except Fault Bytes :=
  match overlong? (entries.flatMap fun e => (.queueId, e.1.queue.id) :: entryTexts e.2) with
  | some field => .error (.tooLong field)
  | none =>
    .ok (bigEndian 4 entries.length ++
      entries.flatMap fun e => insertTag :: keyBytes e.1 ++ entryBytes e.2)

/-! Reading. Each reader takes what it reads off the front and returns the rest. -/

/-- Refuse to go on with fewer than `count` bytes. -/
def require (count : Nat) (field : Field) (bytes : Bytes) : Except Fault Unit :=
  match splitExact count bytes with
  | some _ => .ok ()
  | none => .error (.truncated field)

def readByte (field : Field) : Bytes → Except Fault (UInt8 × Bytes)
  | [] => .error (.truncated field)
  | b :: rest => .ok (b, rest)

def readChunk (count : Nat) (field : Field) (bytes : Bytes) : Except Fault (Bytes × Bytes) :=
  match splitExact count bytes with
  | some parts => .ok parts
  | none => .error (.truncated field)

def readNumber (width : Nat) (field : Field) (bytes : Bytes) : Except Fault (Nat × Bytes) := do
  let (chunk, bytes) ← readChunk width field bytes
  return (ofBigEndian chunk, bytes)

def readWord16 (field : Field) (bytes : Bytes) : Except Fault (UInt16 × Bytes) := do
  let (n, bytes) ← readNumber 2 field bytes
  return (UInt16.ofNat n, bytes)

def readWord64 (field : Field) (bytes : Bytes) : Except Fault (UInt64 × Bytes) := do
  let (n, bytes) ← readNumber 8 field bytes
  return (UInt64.ofNat n, bytes)

/-- Any byte but zero says yes. -/
def readFlag (field : Field) (bytes : Bytes) : Except Fault (Bool × Bytes) := do
  let (b, bytes) ← readByte field bytes
  return (b != 0, bytes)

def readText (field : Field) (bytes : Bytes) : Except Fault (String × Bytes) := do
  let (length, bytes) ← readNumber 2 field bytes
  let (chunk, bytes) ← readChunk length field bytes
  match ofUtf8? chunk with
  | some text => return (text, bytes)
  | none => .error (.notUtf8 field)

def presentId (id : UInt16) : Option UInt16 := if id = noPacketId then none else some id

def readKey (bytes : Bytes) : Except Fault (EntryKey × Bytes) := do
  let (shared, bytes) ← readFlag .sharedFlag bytes
  let (id, bytes) ← readText .queueId bytes
  let (sequence, bytes) ← readWord64 .sequenceNumber bytes
  return (⟨⟨id, shared⟩, sequence⟩, bytes)

def readQos (bytes : Bytes) : Except Fault (Qos × Bytes) := do
  let (level, bytes) ← readByte .publishHeader bytes
  match Qos.ofLevel? level.toNat with
  | some qos => return (qos, bytes)
  | none => .error (.unknownQos level)

def readExpiry (bytes : Bytes) : Except Fault (Option UInt64 × Bytes) := do
  let (present, bytes) ← readFlag .publishBody bytes
  if present then
    let (seconds, bytes) ← readWord64 .expiryInterval bytes
    return (some seconds, bytes)
  else
    return (none, bytes)

/-- The header has to be there as a whole before any of it is judged. -/
def readPublish (bytes : Bytes) : Except Fault (StoredPublish × Bytes) := do
  require 4 .publishHeader bytes
  let (packetId, bytes) ← readWord16 .publishHeader bytes
  let (qos, bytes) ← readQos bytes
  let (retain, bytes) ← readFlag .publishHeader bytes
  let (topic, bytes) ← readText .topic bytes
  let (uniqueId, bytes) ← readText .uniqueId bytes
  let (payload, bytes) ← readWord64 .publishBody bytes
  let (timestamp, bytes) ← readWord64 .publishBody bytes
  let (expiry, bytes) ← readExpiry bytes
  let (size, bytes) ← readWord64 .estimatedSize bytes
  return (⟨presentId packetId, qos, topic, uniqueId, payload, timestamp, expiry, retain, size⟩,
    bytes)

def readEntry (bytes : Bytes) : Except Fault (Entry × Bytes) := do
  let (tag, bytes) ← readByte .entryTag bytes
  if tag = publishTag then
    let (stored, bytes) ← readPublish bytes
    return (.publish stored, bytes)
  else if tag = takenTag then
    let (stored, bytes) ← readPublish bytes
    return (.taken stored, bytes)
  else if tag = pubrelTag then
    let (packetId, bytes) ← readWord16 .packetId bytes
    return (.pubrel packetId, bytes)
  else .error (.unknownEntry tag)

/-- The key is read before the tag is judged. -/
def readChange (bytes : Bytes) : Except Fault (Change × Bytes) := do
  let (tag, bytes) ← readByte .changeTag bytes
  let (key, bytes) ← readKey bytes
  if tag = insertTag then
    let (entry, bytes) ← readEntry bytes
    return (.insert key entry, bytes)
  else if tag = deleteTag then
    return (.delete key, bytes)
  else if tag = assignTag then
    let (packetId, bytes) ← readWord16 .packetId bytes
    return (.assign key (presentId packetId), bytes)
  else if tag = markTag then
    let (taken, bytes) ← readFlag .markerFlag bytes
    return (.mark key taken, bytes)
  else if tag = releaseTag then
    let (packetId, bytes) ← readWord16 .packetId bytes
    return (.release key packetId, bytes)
  else .error (.unknownChange tag)

def readChanges : Nat → Bytes → Except Fault (List Change × Bytes)
  | 0, bytes => .ok ([], bytes)
  | count + 1, bytes => do
    let (change, bytes) ← readChange bytes
    let (changes, bytes) ← readChanges count bytes
    return (change :: changes, bytes)

/-- The changes of a batch that takes up all the bytes. -/
def decode (bytes : Bytes) : Except Fault (List Change) := do
  let (count, bytes) ← readNumber 4 .batchHeader bytes
  let (changes, bytes) ← readChanges count bytes
  if bytes.isEmpty then return changes else .error (.trailing bytes.length)

end DeliveryQueue.Batch
