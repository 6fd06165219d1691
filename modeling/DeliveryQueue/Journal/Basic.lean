import DeliveryQueue.Journal.File
import DeliveryQueue.Journal.Memory

/-!
A journal is a log of batches, oldest first. Appending a batch is one transaction: a replay shows
it whole or not at all.
-/
namespace DeliveryQueue

inductive Journal
  | memory (log : MemoryJournal)
  | file (log : FileJournal)
  deriving DecidableEq, Repr

namespace Journal

/-- What a call answers, and the journal and the disk after it. -/
structure Outcome (α : Type) where
  answer : Except StorageFault α
  journal : Journal
  disk : Disk

def append (journal : Journal) (disk : Disk) (batch : Bytes) : Outcome Unit :=
  match journal with
  | memory log =>
    match log.append batch with
    | .ok log => ⟨.ok (), memory log, disk⟩
    | .error fault => ⟨.error (.io fault), journal, disk⟩
  | file log =>
    let (answer, log, disk) := log.append disk batch
    ⟨answer, file log, disk⟩

/-- Every batch in the log, oldest first. -/
def replay (journal : Journal) (disk : Disk) : Outcome (List Bytes) :=
  match journal with
  | memory log => ⟨.ok log.batches, journal, disk⟩
  | file log =>
    let (answer, log) := log.replay disk
    ⟨answer, file log, disk⟩

/-- Put one batch in the place of the whole log. -/
def replaceAll (journal : Journal) (disk : Disk) (snapshot : Bytes) : Outcome Unit :=
  match journal with
  | memory log =>
    match log.replaceAll snapshot with
    | .ok log => ⟨.ok (), memory log, disk⟩
    | .error fault => ⟨.error (.io fault), journal, disk⟩
  | file log =>
    let (answer, log, disk) := log.replaceAll disk snapshot
    ⟨answer, file log, disk⟩

def recordCount : Journal → Nat
  | memory log => log.batches.length
  | file log => log.records

/-- Flush what was written. -/
def sync (journal : Journal) (disk : Disk) : Outcome Unit :=
  match journal with
  | memory log =>
    let (answer, log) := log.sync
    ⟨answer.mapError .io, memory log, disk⟩
  | file log =>
    let (answer, log) := log.sync
    ⟨answer, file log, disk⟩

end Journal

end DeliveryQueue
