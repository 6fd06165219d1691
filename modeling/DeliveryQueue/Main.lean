import DeliveryQueue.CommandLine

/-!
The program: it reads the environment and the files that an inspection looks at, and prints what the
inspection reports.
-/
namespace DeliveryQueue.Program

/-- Copy what stands at a path onto the disk, if something does. -/
def copy (disk : Disk) (path : Path) : IO Disk := do
  try
    let bytes ← IO.FS.readBinFile path.text
    return (disk.writeFile path bytes.data.toList).toOption.getD disk
  catch
    | .inappropriateType _ 21 _ => return (disk.createDirectory path).toOption.getD disk
    | _ => return disk

/-- Copy what stands at a path and what is on the way to it. -/
def fetch (disk : Disk) (path : Path) : IO Disk := path.stages.reverse.foldlM copy disk

def variableNames : List String :=
  [Settings.fileVariable, "CLIENT_QUEUE_DATA_DIR", "CLIENT_QUEUE_BUCKET_COUNT",
    "CLIENT_QUEUE_QUEUE_LIMIT", "CLIENT_QUEUE_DISCARD_POLICY", "CLIENT_QUEUE_QOS0_MEMORY_DIVISOR",
    "CLIENT_QUEUE_MAX_MEMORY_BYTES", "CLIENT_QUEUE_CLOSE_RETRIES",
    "CLIENT_QUEUE_CLOSE_RETRY_INTERVAL_MS", "CLIENT_QUEUE_FSYNC_EVERY_N",
    "CLIENT_QUEUE_CLEANUP_INTERVAL_MS", "CLIENT_QUEUE_WRITER_THREADS",
    "CLIENT_QUEUE_COMPACTION_THRESHOLD"]

def environment : IO Settings.Environment := do
  let mut found := []
  for name in variableNames do
    if let some value ← IO.getEnv name then
      found := found ++ [(name, value)]
  return found

/-- The disk with the files that an inspection under these options looks at. -/
def load (options : CommandLine.Options) (env : Settings.Environment) : IO Disk := do
  let here := Path.ofText (← IO.currentDir).toString
  let disk ← fetch { Disk.empty with workingDirectory := here.steps } here
  let disk ← match options.config.or (env.lookup Settings.fileVariable) with
    | some name => fetch disk (.ofText name)
    | none => pure disk
  match CommandLine.settings .own options env disk with
  | .error _ => return disk
  | .ok settings =>
    let directory := DataDirectory.ofText settings.dataDir
    let disk ← fetch disk directory.layoutPath
    match Store.recordedCount .own directory disk settings.bucketCount with
    | .error _ => return disk
    | .ok count => ((List.range count).map directory.journalPath).foldlM fetch disk

def run (arguments : List String) : IO UInt32 := do
  let env ← environment
  let disk ← match CommandLine.parse arguments with
    | .inspect options => load options env
    | _ => pure Disk.empty
  let outcome := CommandLine.run .own arguments env disk
  IO.print outcome.output
  if let some complaint := outcome.complaint then
    IO.eprintln complaint
  return UInt32.ofNat outcome.code

end DeliveryQueue.Program

def main (arguments : List String) : IO UInt32 := DeliveryQueue.Program.run arguments
