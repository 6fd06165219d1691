import DeliveryQueue.Journal.Fault

/-!
A journal in a file. The journal holds on to the file by number and remembers a position in it:
appends go to the position, a second replay reads the file anew and leaves the position at its end.
The file is on a device, which can fail to write, to cut back or to flush.
-/
namespace DeliveryQueue

/-- When appends flush the file: once so many records are not flushed yet, or so many milliseconds
went by since the last flush. -/
structure FlushPolicy where
  every : Option Nat
  interval : Option Nat
  deriving DecidableEq, Repr

def FlushPolicy.standard : FlushPolicy := ⟨some 64, none⟩

/-- What a file is kept on, as the journal meets it. -/
structure Device where
  /-- The time in milliseconds. -/
  clock : Nat
  /-- The next write fails after so many bytes. -/
  tears : Option Nat
  /-- Whether cutting a file back fails. -/
  failCuts : Bool
  /-- How many of the next flushes fail. -/
  failFlushes : Nat
  deriving DecidableEq, Repr

namespace Device

/-- Nothing fails. -/
def sound : Device := ⟨0, none, false, 0⟩

/-- Write bytes: the answer, and what of them got into the file. A write that fails was not
complete. -/
def write (device : Device) (bytes : Bytes) : Except IoFault Unit × Bytes × Device :=
  match device.tears with
  | none => (.ok (), bytes, device)
  | some count =>
    (.error .device, bytes.take (min count (bytes.length - 1)), { device with tears := none })

def flush (device : Device) : Except IoFault Unit × Device :=
  match device.failFlushes with
  | 0 => (.ok (), device)
  | left + 1 => (.error .device, { device with failFlushes := left })

end Device

structure FileJournal where
  path : Path
  file : Nat
  position : Nat
  /-- The number of the next record. -/
  nextId : UInt64
  /-- How many records the file holds, as far as this journal knows. -/
  records : Nat
  /-- The batches found on opening, for the first replay. -/
  recovered : Option (List Bytes)
  readOnly : Bool
  policy : FlushPolicy
  /-- How many records were written since the last flush. -/
  unflushed : Nat
  /-- When the file was flushed last. -/
  lastFlush : Nat
  device : Device
  deriving DecidableEq, Repr

namespace FileJournal

def compactExtension : String := "compact"

def ofScan (path : Path) (file : Nat) (readOnly : Bool) (scan : Record.Scan) : FileJournal where
  path := path
  file := file
  position := scan.stop
  nextId := scan.nextId
  records := scan.batches.length
  recovered := some scan.batches
  readOnly := readOnly
  policy := .standard
  unflushed := 0
  lastFlush := 0
  device := .sound

/-- The records of a file whose header is in order. -/
def inspect (content : Bytes) : Except StorageFault Record.Scan :=
  match Record.checkHeader content with
  | .error fault => .error (.corruption (.record fault))
  | .ok () =>
    let scan := Record.scan content
    match scan.damage with
    | some (fault, _) => .error (.corruption (.record fault))
    | none => .ok scan

/-- Open the journal at a path, with its directories and an empty file if they are not there yet.
An incomplete record at the end is cut off; a damaged file is left as it is. -/
def «open» (disk : Disk) (path : Path) : Except StorageFault FileJournal × Disk :=
  match disk.createDirectories path.parent with
  | (.error fault, disk) => (.error (.io fault), disk)
  | (.ok (), disk) =>
    match disk.openOrCreate path with
    | .error fault => (.error (.io fault), disk)
    | .ok (file, disk) =>
      let disk :=
        if (disk.file file).length = 0 then disk.setContent file Record.header else disk
      match inspect (disk.content file) with
      | .error fault => (.error fault, disk)
      | .ok scan =>
        (.ok (ofScan path file false scan), disk.changeContent file (·.resize scan.stop))

/-- Open with another flush policy. -/
def openWith (policy : FlushPolicy) (disk : Disk) (path : Path) :
    Except StorageFault FileJournal × Disk :=
  let (answer, disk) := «open» disk path
  (({ · with policy }) <$> answer, disk)

/-- Open an existing journal to read it. An empty file counts as an empty journal, an incomplete
record at the end is passed over, and nothing is written. -/
def openReadOnly (disk : Disk) (path : Path) : Except StorageFault FileJournal :=
  match disk.resolve path with
  | .error fault => .error (.io fault)
  | .ok (.directory _) => .error (.corruption (.record .unreadableHeader))
  | .ok (.file _ _ file) =>
    let content := disk.content file
    if content.isEmpty then .ok (ofScan path file true ⟨[], 1, 0, none⟩)
    else ofScan path file true <$> inspect content

/-- Whether the policy asks for a flush. -/
def flushDue (journal : FileJournal) : Bool :=
  journal.policy.every.any (· ≤ journal.unflushed) ||
    journal.policy.interval.any (· ≤ journal.device.clock - journal.lastFlush)

/-- Flush the file. -/
def flush (journal : FileJournal) : Except StorageFault Unit × FileJournal :=
  match journal.device.flush with
  | (.error fault, device) => (.error (.io fault), { journal with device })
  | (.ok (), device) =>
    (.ok (), { journal with unflushed := 0, lastFlush := journal.device.clock, device })

/-- Flush the file when it is time. -/
def flushIfDue (journal : FileJournal) : Except StorageFault Unit × FileJournal :=
  if journal.flushDue then journal.flush else (.ok (), journal)

/-- Flush what was written; there is nothing to flush in a journal that is only read. -/
def sync (journal : FileJournal) : Except StorageFault Unit × FileJournal :=
  if journal.readOnly then (.ok (), journal) else journal.flush

/-- The journal behind one more record. -/
def pass (journal : FileJournal) (record : Bytes) : FileJournal :=
  { journal with
    position := journal.position + record.length
    nextId := journal.nextId + 1
    records := journal.records + 1
    unflushed := journal.unflushed + 1 }

/-- Cut a write that failed off again. If that fails too, the position stays behind what was
written. -/
def cutBack (journal : FileJournal) (disk : Disk) (part : Bytes) : FileJournal × Disk :=
  if journal.device.failCuts then
    ({ journal with position := journal.position + part.length }, disk)
  else (journal, disk.changeContent journal.file (·.resize journal.position))

/-- Write a record at the position, and flush when it is time. If the flush fails, the record has
been written all the same. -/
def append (journal : FileJournal) (disk : Disk) (batch : Bytes) :
    Except StorageFault Unit × FileJournal × Disk :=
  if journal.readOnly then (.error .readOnly, journal, disk)
  else if UInt32.size ≤ batch.length then
    (.error (.corruption (.record .batchTooLarge)), journal, disk)
  else
    let (written, bytes, device) := journal.device.write (Record.encode journal.nextId batch)
    let disk := disk.changeContent journal.file (·.overwrite journal.position bytes)
    let journal := { journal with device }
    match written with
    | .error fault => (.error (.io fault), journal.cutBack disk bytes)
    | .ok () =>
      let (answer, journal) := (journal.pass bytes).flushIfDue
      (answer, journal, disk)

/-- The batches in the file. A damaged record leaves the position behind itself. -/
def replay (journal : FileJournal) (disk : Disk) :
    Except StorageFault (List Bytes) × FileJournal :=
  match journal.recovered with
  | some batches => (.ok batches, { journal with recovered := none })
  | none =>
    let content := disk.content journal.file
    let scan := Record.scan content
    match scan.damage with
    | some (fault, behind) =>
      (.error (.corruption (.record fault)), { journal with position := behind })
    | none => (.ok scan.batches, { journal with position := content.length })

/-- What a device makes of a new journal file with one record. The header is flushed before the
record is written, and the record after that. -/
def draft (device : Device) (record : Bytes) : Except IoFault Unit × Bytes × Device :=
  match device.flush with
  | (.error fault, device) => (.error fault, Record.header, device)
  | (.ok (), device) =>
    match device.write record with
    | (.error fault, bytes, device) => (.error fault, Record.header ++ bytes, device)
    | (.ok (), bytes, device) =>
      let (flushed, device) := device.flush
      (flushed, Record.header ++ bytes, device)

/-- Put one batch in the place of all: it is written to a file of its own, which then takes the
journal's name. -/
def replaceAll (journal : FileJournal) (disk : Disk) (snapshot : Bytes) :
    Except StorageFault Unit × FileJournal × Disk :=
  if journal.readOnly then (.error .readOnly, journal, disk)
  else if UInt32.size ≤ snapshot.length then
    (.error (.corruption (.record .batchTooLarge)), journal, disk)
  else
    let compact := journal.path.withExtension compactExtension
    let (written, content, device) := draft journal.device (Record.encode 1 snapshot)
    match disk.writeFile compact content with
    | .error fault => (.error (.io fault), journal, disk)
    | .ok disk =>
      let journal := { journal with device }
      match written with
      | .error fault => (.error (.io fault), journal, disk)
      | .ok () =>
        match disk.renameFile compact journal.path with
        | .error fault => (.error (.io fault), journal, disk)
        | .ok disk =>
          match disk.openFile journal.path with
          | .error fault => (.error (.io fault), journal, disk)
          | .ok file =>
            (.ok (), { journal with
                file := file
                position := content.length
                nextId := 2
                records := 1
                recovered := none
                unflushed := 0
                lastFlush := journal.device.clock }, disk)

end FileJournal

end DeliveryQueue
