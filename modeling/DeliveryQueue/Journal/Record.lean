import DeliveryQueue.Checksum

/-!
The bytes of a journal file: a header of 32 bytes, then records. A record holds its number in eight
bytes, the length of its batch in four, the batch's checksum in four, each with the lowest byte
first, and the batch. A record that the file ends in the middle of was never committed; a record
with the wrong checksum is damage.
-/
namespace DeliveryQueue.Record

def magic : Bytes := [0x42, 0x4C, 0x49, 0x50, 0x43, 0x51, 0x4A, 0x00]

def version : Nat := 1

def headerLength : Nat := 32

/-- The start of every journal file. -/
def header : Bytes := magic ++ littleEndian 4 version ++ List.replicate 20 0

/-- The bytes in a record before its batch. -/
def prefaceLength : Nat := 16

/-- What can be wrong with a journal file. -/
inductive Fault
  | tooShort
  | unreadableHeader
  | wrongMagic
  | unknownVersion (version : Nat)
  /-- The record at this offset carries one checksum and its batch has another. -/
  | wrongChecksum (offset : Nat) (expected actual : UInt32)
  | batchTooLarge
  deriving DecidableEq, Repr

def Fault.message : Fault → String
  | tooShort => "file too small to contain header"
  | unreadableHeader => "unexpected EOF while reading journal header"
  | wrongMagic => "invalid journal magic"
  | unknownVersion version => "unsupported journal version: " ++ toString version
  | wrongChecksum offset expected actual =>
    "CRC mismatch at offset " ++ toString offset ++ ": expected " ++ Checksum.hex expected ++
      ", got " ++ Checksum.hex actual
  | batchTooLarge => "batch too large"

/-- Whether the file begins with a header. -/
def checkHeader (file : Bytes) : Except Fault Unit :=
  if file.length < headerLength then .error .tooShort
  else if file.take 8 ≠ magic then .error .wrongMagic
  else
    let found := ofLittleEndian ((file.drop 8).take 4)
    if found = version then .ok () else .error (.unknownVersion found)

/-- The bytes of a record. -/
def encode (id : UInt64) (batch : Bytes) : Bytes :=
  littleEndian 8 id.toNat ++ littleEndian 4 batch.length ++
    littleEndian 4 (Checksum.crc32 batch).toNat ++ batch

/-- What stands at the beginning of some bytes. -/
inductive Next
  /-- The bytes end before a record does. -/
  | incomplete
  | damaged (length : Nat) (expected actual : UInt32)
  | complete (id : UInt64) (batch rest : Bytes)
  deriving DecidableEq, Repr

def next (bytes : Bytes) : Next :=
  match splitExact prefaceLength bytes with
  | none => .incomplete
  | some (preface, body) =>
    let length := ofLittleEndian ((preface.drop 8).take 4)
    let expected := UInt32.ofNat (ofLittleEndian (preface.drop 12))
    match splitExact length body with
    | none => .incomplete
    | some (batch, rest) =>
      let actual := Checksum.crc32 batch
      if actual = expected then
        .complete (UInt64.ofNat (ofLittleEndian (preface.take 8))) batch rest
      else .damaged length expected actual

/-- The records of a file. -/
structure Scan where
  batches : List Bytes
  /-- The number for the record after the last one. -/
  nextId : UInt64
  /-- Where the last complete record ends. -/
  stop : Nat
  /-- The damage that ended the scan, with the offset behind the damaged record. -/
  damage : Option (Fault × Nat)
  deriving DecidableEq, Repr

/-- Read records from `offset` on. Each takes up some bytes, so `fuel` above their number is
enough. -/
def scanFrom : Nat → Nat → UInt64 → Bytes → Scan
  | 0, offset, nextId, _ => ⟨[], nextId, offset, none⟩
  | fuel + 1, offset, nextId, bytes =>
    match next bytes with
    | .incomplete => ⟨[], nextId, offset, none⟩
    | .damaged length expected actual =>
      ⟨[], nextId, offset,
        some (.wrongChecksum offset expected actual, offset + prefaceLength + length)⟩
    | .complete id batch rest =>
      let scan := scanFrom fuel (offset + prefaceLength + batch.length) (id + 1) rest
      { scan with batches := batch :: scan.batches }

/-- All records behind the header. -/
def scan (file : Bytes) : Scan :=
  scanFrom (file.length + 1) headerLength 1 (file.drop headerLength)

end DeliveryQueue.Record
