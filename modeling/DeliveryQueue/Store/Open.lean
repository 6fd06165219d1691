import DeliveryQueue.Store.Basic

/-!
Opening a store: over given journals, in a data directory, or in a data directory that must not
change.
-/
namespace DeliveryQueue.Store

/-- A store without buckets. -/
def blank (settings : Settings) (disk : Disk) : Store where
  settings := settings
  buckets := #[]
  sequence := Sequence.fresh
  budget := Budget.ofLimit settings.qos0MemoryLimit
  stats := Stats.zero
  closed := false
  disk := disk
  outbox := Outbox.empty

/-- Add a bucket that is recovered from its journal. Numbers drawn later come after those that its
journal holds. -/
def addBucket (store : Store) (journal : Journal) : Except QueueFault Store :=
  let recovered := (Bucket.ofJournal store.bucketCount journal).recover store.budget store.disk
  match recovered.answer with
  | .error fault => .error (.storage fault)
  | .ok highest =>
    .ok { store with
      buckets := store.buckets.push recovered.bucket
      sequence := highest.elim store.sequence store.sequence.resumeAfter
      budget := recovered.budget
      disk := recovered.disk }

/-- A store with one bucket for each journal. -/
def ofJournals (settings : Settings) (journals : List Journal) (disk : Disk) :
    Except QueueFault Store :=
  let settings := { settings with bucketCount := journals.length }
  match settings.validate with
  | .error fault => .error (.settings fault)
  | .ok () => journals.foldlM addBucket (blank settings disk)

/-- A store over fresh journals in memory. -/
def inMemory (settings : Settings) (disk : Disk) : Except QueueFault Store :=
  ofJournals settings (List.replicate settings.bucketCount (.memory .empty)) disk

/-- Open the journals of the indices from `index` on. -/
def openJournals (policy : FlushPolicy) (directory : DataDirectory) (disk : Disk) (index : Nat) :
    Nat → Except StorageFault (List Journal) × Disk
  | 0 => (.ok [], disk)
  | count + 1 =>
    match FileJournal.openWith policy disk (directory.journalPath index) with
    | (.error fault, disk) => (.error fault, disk)
    | (.ok journal, disk) =>
      match openJournals policy directory disk (index + 1) count with
      | (.error fault, disk) => (.error fault, disk)
      | (.ok journals, disk) => (.ok (.file journal :: journals), disk)

/-- Open, or make, the store in its data directory. The directory has to have the configured number
of buckets. The disk is returned as it is left, whether opening succeeds or not. -/
def «open» (toml : Toml.Library) (settings : Settings) (disk : Disk) :
    Except QueueFault Store × Disk :=
  match settings.validate with
  | .error fault => (.error (.settings fault), disk)
  | .ok () =>
    let directory := DataDirectory.ofText settings.dataDir
    match disk.createDirectories directory.path with
    | (.error fault, disk) => (.error (.storage (.io fault)), disk)
    | (.ok (), disk) =>
      match directory.ensureLayout toml disk (.ofCount settings.bucketCount) with
      | (.error fault, disk) => (.error (.storage fault), disk)
      | (.ok (), disk) =>
        match openJournals settings.flushPolicy directory disk 0 settings.bucketCount with
        | (.error fault, disk) => (.error (.storage fault), disk)
        | (.ok journals, disk) => (ofJournals settings journals disk, disk)

def openJournalsReadOnly (directory : DataDirectory) (disk : Disk) (index : Nat) :
    Nat → Except StorageFault (List Journal)
  | 0 => .ok []
  | count + 1 =>
    match FileJournal.openReadOnly disk (directory.journalPath index) with
    | .error fault => .error fault
    | .ok journal => (.file journal :: ·) <$> openJournalsReadOnly directory disk (index + 1) count

/-- How many buckets a data directory has: as recorded, or else as configured. -/
def recordedCount (toml : Toml.Library) (directory : DataDirectory) (disk : Disk)
    (configured : Nat) : Except StorageFault Nat :=
  match directory.loadLayout toml disk with
  | .error fault => .error fault
  | .ok none => .ok configured
  | .ok (some stored) =>
    (fun () => stored.bucketCount) <$>
      DataDirectory.checkLayout stored (.ofCount stored.bucketCount)

/-- Open the store in its data directory to look at it. Nothing on the disk changes, then or
later. -/
def openReadOnly (toml : Toml.Library) (settings : Settings) (disk : Disk) :
    Except QueueFault Store :=
  let directory := DataDirectory.ofText settings.dataDir
  match recordedCount toml directory disk settings.bucketCount with
  | .error fault => .error (.storage fault)
  | .ok count =>
    match openJournalsReadOnly directory disk 0 count with
    | .error fault => .error (.storage fault)
    | .ok journals => ofJournals settings journals disk

end DeliveryQueue.Store
