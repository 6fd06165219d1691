import DeliveryQueue.Budget
import DeliveryQueue.Journal.File
import DeliveryQueue.Queue.Limit
import DeliveryQueue.Text.Decimal
import DeliveryQueue.Toml.Library

/-!
The settings of a store: defaults, a TOML file over them, and environment variables over both.
-/
namespace DeliveryQueue

structure Settings where
  dataDir : String
  bucketCount : Nat
  queueLimit : Nat
  discardPolicy : DiscardPolicy
  /-- The QoS 0 budget is one part in so many of the memory. -/
  qos0MemoryDivisor : UInt64
  maxMemoryBytes : UInt64
  /-- How often closing tries a failing flush again. -/
  closeRetries : Nat
  closeRetryIntervalMs : Nat
  /-- Flush after so many appends; zero is never. -/
  fsyncEveryN : Nat
  cleanupIntervalMs : Nat
  writerThreads : Nat
  /-- How many records a journal may hold before a sweep compacts it. -/
  compactionThreshold : Nat
  /-- What the program was built to do with sums that do not fit. No file or variable sets it. -/
  overflow : Overflow
  deriving DecidableEq, Repr

inductive SettingsFault
  | io (fault : IoFault)
  | toml
  /-- A variable cannot be read. -/
  | variable (name reason : String)
  /-- A setting that has to be above zero is not. -/
  | mustBePositive (setting : String)
  deriving DecidableEq, Repr

def SettingsFault.message : SettingsFault → String
  | io fault => "I/O error: " ++ fault.message
  | toml => "TOML parse error"
  | «variable» name reason => "config parse error: " ++ name ++ ": " ++ reason
  | mustBePositive setting => "invalid config: " ++ setting ++ " must be > 0"

namespace Settings

def standard : Settings where
  dataDir := "client-queue-data"
  bucketCount := 64
  queueLimit := 1000
  discardPolicy := .discard
  qos0MemoryDivisor := 4
  maxMemoryBytes := 1073741824
  closeRetries := 5
  closeRetryIntervalMs := 100
  fsyncEveryN := 64
  cleanupIntervalMs := 4000
  writerThreads := 4
  compactionThreshold := 10000
  overflow := .panics

instance : Inhabited Settings := ⟨standard⟩

def qos0MemoryLimit (settings : Settings) : UInt64 :=
  Budget.limitOf settings.maxMemoryBytes settings.qos0MemoryDivisor

/-- After how many appends a journal flushes, if it does. -/
def fsyncEvery? (settings : Settings) : Option Nat :=
  if settings.fsyncEveryN = 0 then none else some settings.fsyncEveryN

/-- Time alone lets no journal flush. -/
def flushPolicy (settings : Settings) : FlushPolicy := ⟨settings.fsyncEvery?, none⟩

/-- The first setting in this order that has to be above zero and is not. -/
def validate (settings : Settings) : Except SettingsFault Unit :=
  if settings.bucketCount = 0 then .error (.mustBePositive "bucket_count")
  else if settings.qos0MemoryDivisor = 0 then .error (.mustBePositive "qos0_memory_divisor")
  else if settings.writerThreads = 0 then .error (.mustBePositive "writer_threads")
  else .ok ()

/-! The file -/

/-- A setting of a document: absent, or a value that is read or refused. -/
def tomlSetting {α : Type} (read : Toml.Value → Option α) (entries : Toml.Entries) (key : String)
    (default : α) : Except SettingsFault α :=
  match entries.lookup key with
  | none => .ok default
  | some value =>
    match read value with
    | some a => .ok a
    | none => .error .toml

/-- A policy is one of two words, as a text or as the key of a table that holds nothing. -/
def tomlPolicy? : Toml.Value → Option DiscardPolicy
  | .string word => DiscardPolicy.ofWord? word
  | .table _ [(word, value)] =>
    if value.isEmptyContainer then DiscardPolicy.ofWord? word else none
  | _ => none

def tomlWord? (value : Toml.Value) : Option UInt64 := (value.natural? UInt64.size).map UInt64.ofNat

/-- The settings of a document over others. Entries that are no settings are of no account. -/
def ofEntries (base : Settings) (entries : Toml.Entries) : Except SettingsFault Settings := do
  let count (key : String) (default : Nat) : Except SettingsFault Nat :=
    tomlSetting (·.natural? UInt64.size) entries key default
  return {
    dataDir := ← tomlSetting (·.string?) entries "data_dir" base.dataDir
    bucketCount := ← count "bucket_count" base.bucketCount
    queueLimit := ← count "queue_limit" base.queueLimit
    discardPolicy := ← tomlSetting tomlPolicy? entries "discard_policy" base.discardPolicy
    qos0MemoryDivisor :=
      ← tomlSetting tomlWord? entries "qos0_memory_divisor" base.qos0MemoryDivisor
    maxMemoryBytes := ← tomlSetting tomlWord? entries "max_memory_bytes" base.maxMemoryBytes
    closeRetries := ← tomlSetting (·.natural? UInt32.size) entries "close_retries" base.closeRetries
    closeRetryIntervalMs := ← count "close_retry_interval_ms" base.closeRetryIntervalMs
    fsyncEveryN := ← count "fsync_every_n" base.fsyncEveryN
    cleanupIntervalMs := ← count "cleanup_interval_ms" base.cleanupIntervalMs
    writerThreads := ← count "writer_threads" base.writerThreads
    compactionThreshold := ← count "compaction_threshold" base.compactionThreshold
    overflow := base.overflow }

def ofFile (toml : Toml.Library) (base : Settings) (disk : Disk) (path : String) :
    Except SettingsFault Settings :=
  match disk.readText (.ofText path) with
  | .error fault => .error (.io fault)
  | .ok text =>
    match toml.read text with
    | none => .error .toml
    | some entries => ofEntries base entries

/-! The environment -/

/-- Variables by name. -/
abbrev Environment := List (String × String)

/-- The variable that names the file. -/
def fileVariable : String := "CLIENT_QUEUE_CONFIG"

/-- A number from a variable, without the blanks around it. -/
def numberVariable (bound : Nat) (env : Environment) (name : String) (default : Nat) :
    Except SettingsFault Nat :=
  match env.lookup name with
  | none => .ok default
  | some text =>
    match Text.readDecimal bound (Text.trim text) with
    | .ok n => .ok n
    | .error fault => .error (.variable name fault.message)

def policyVariable (env : Environment) (name : String) (default : DiscardPolicy) :
    Except SettingsFault DiscardPolicy :=
  match env.lookup name with
  | none => .ok default
  | some text =>
    match DiscardPolicy.read text with
    | .ok policy => .ok policy
    | .error word => .error (.variable name (DiscardPolicy.unknownMessage word))

/-- The settings of the environment over others. The first variable in this order that cannot be
read is reported. -/
def withVariables (base : Settings) (env : Environment) : Except SettingsFault Settings := do
  let count (name : String) (default : Nat) : Except SettingsFault Nat :=
    numberVariable UInt64.size env name default
  let word (name : String) (default : UInt64) : Except SettingsFault UInt64 :=
    UInt64.ofNat <$> count name default.toNat
  return {
    dataDir := (env.lookup "CLIENT_QUEUE_DATA_DIR").getD base.dataDir
    bucketCount := ← count "CLIENT_QUEUE_BUCKET_COUNT" base.bucketCount
    queueLimit := ← count "CLIENT_QUEUE_QUEUE_LIMIT" base.queueLimit
    discardPolicy := ← policyVariable env "CLIENT_QUEUE_DISCARD_POLICY" base.discardPolicy
    qos0MemoryDivisor := ← word "CLIENT_QUEUE_QOS0_MEMORY_DIVISOR" base.qos0MemoryDivisor
    maxMemoryBytes := ← word "CLIENT_QUEUE_MAX_MEMORY_BYTES" base.maxMemoryBytes
    closeRetries :=
      ← numberVariable UInt32.size env "CLIENT_QUEUE_CLOSE_RETRIES" base.closeRetries
    closeRetryIntervalMs :=
      ← count "CLIENT_QUEUE_CLOSE_RETRY_INTERVAL_MS" base.closeRetryIntervalMs
    fsyncEveryN := ← count "CLIENT_QUEUE_FSYNC_EVERY_N" base.fsyncEveryN
    cleanupIntervalMs := ← count "CLIENT_QUEUE_CLEANUP_INTERVAL_MS" base.cleanupIntervalMs
    writerThreads := ← count "CLIENT_QUEUE_WRITER_THREADS" base.writerThreads
    compactionThreshold := ← count "CLIENT_QUEUE_COMPACTION_THRESHOLD" base.compactionThreshold
    overflow := base.overflow }

/-- The settings from a file and the environment. Without a path the environment may name the file;
without any file the standard settings stand. -/
def load (toml : Toml.Library) (disk : Disk) (path : Option String) (env : Environment) :
    Except SettingsFault Settings := do
  let settings ← match path.or (env.lookup fileVariable) with
    | some path => ofFile toml standard disk path
    | none => .ok standard
  let settings ← settings.withVariables env
  settings.validate
  return settings

end Settings

end DeliveryQueue
