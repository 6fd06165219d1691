import DeliveryQueue.Journal.Fault
import DeliveryQueue.Toml.Library

/-!
The directory that holds the journals of a store, one file for each bucket, and beside them the
layout that the directory was made with.
-/
namespace DeliveryQueue

structure DataDirectory where
  path : Path
  deriving DecidableEq, Repr

namespace DataDirectory

def ofText (text : String) : DataDirectory := ⟨Path.ofText text⟩

def layoutPath (directory : DataDirectory) : Path := directory.path.join Layout.fileName

def journalPath (directory : DataDirectory) (index : Nat) : Path :=
  directory.path.join ("bucket-" ++ toString index ++ ".journal")

/-- The recorded layout, if there is one. -/
def loadLayout (directory : DataDirectory) (toml : Toml.Library) (disk : Disk) :
    Except StorageFault (Option Layout) :=
  match disk.readText directory.layoutPath with
  | .error .notFound => .ok none
  | .error fault => .error (.io fault)
  | .ok text =>
    match (toml.read text).bind Layout.ofEntries? with
    | some layout => .ok (some layout)
    | none => .error (.corruption (.layout directory.layoutPath.text))

/-- Record a layout: it is written to a file of its own, which then takes the layout's name. -/
def storeLayout (directory : DataDirectory) (toml : Toml.Library) (disk : Disk)
    (layout : Layout) : Except StorageFault Unit × Disk :=
  match toml.write layout.entries with
  | none => (.error (.corruption (.unwritable layout)), disk)
  | some text =>
    let draft := directory.layoutPath.withExtension "tmp"
    match disk.writeFile draft (utf8 text) with
    | .error fault => (.error (.io fault), disk)
    | .ok disk =>
      match disk.renameFile draft directory.layoutPath with
      | .error fault => (.error (.io fault), disk)
      | .ok disk => (.ok (), disk)

/-- Whether the recorded layout is the configured one. -/
def checkLayout (stored configured : Layout) : Except StorageFault Unit :=
  if stored = configured then .ok () else .error (.layoutMismatch stored configured)

/-- Record the configured layout in a fresh directory, or check it against the recorded one. -/
def ensureLayout (directory : DataDirectory) (toml : Toml.Library) (disk : Disk)
    (configured : Layout) : Except StorageFault Unit × Disk :=
  match directory.loadLayout toml disk with
  | .error fault => (.error fault, disk)
  | .ok none => directory.storeLayout toml disk configured
  | .ok (some stored) => (checkLayout stored configured, disk)

end DataDirectory

end DeliveryQueue
