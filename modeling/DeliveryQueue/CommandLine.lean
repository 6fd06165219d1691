import DeliveryQueue.Store.Open
import DeliveryQueue.Store.Upkeep

/-!
The command line: print what the buckets of a data directory hold, without changing anything.
-/
namespace DeliveryQueue.CommandLine

def versionText : String := "client-queue 1.0.0\n"

def helpText : String :=
  "Client queue storage inspection\n\n" ++
  "Usage: client-queue [OPTIONS] <COMMAND>\n\n" ++
  "Commands:\n" ++
  "  inspect  Print bucket, queue and journal statistics\n" ++
  "  help     Print this message or the help of the given subcommand(s)\n\n" ++
  "Options:\n" ++
  "      --config <CONFIG>      Path to configuration file (TOML)\n" ++
  "      --data-dir <DATA_DIR>  Override the data directory from the configuration\n" ++
  "  -h, --help                 Print help\n" ++
  "  -V, --version              Print version\n"

def inspectHelpText : String :=
  "Print bucket, queue and journal statistics\n\n" ++
  "Usage: client-queue inspect\n\n" ++
  "Options:\n" ++
  "  -h, --help  Print help\n"

def helpHelpText : String :=
  "Print this message or the help of the given subcommand(s)\n\n" ++
  "Usage: client-queue help [COMMAND]...\n\n" ++
  "Arguments:\n" ++
  "  [COMMAND]...  Print help for the subcommand(s)\n"

structure Options where
  config : Option String
  dataDir : Option String
  deriving DecidableEq, Repr

inductive OptionName
  | config
  | dataDir
  deriving DecidableEq, Repr

namespace Options

def empty : Options := ⟨none, none⟩

/-- Give an option its value. It may have none yet. -/
def set? (options : Options) : OptionName → String → Option Options
  | .config, value => if options.config.isSome then none else some { options with config := value }
  | .dataDir, value =>
    if options.dataDir.isSome then none else some { options with dataDir := value }

/-- Give the option that waited its value. -/
def settle? (options : Options) : Option (OptionName × String) → Option Options
  | none => some options
  | some (name, value) => options.set? name value

end Options

/-- What the arguments ask for. -/
inductive Command
  | inspect (options : Options)
  /-- Print a text and be done. -/
  | print (text : String)
  | misuse
  deriving DecidableEq, Repr

/-- What follows the name of the command; two dashes say that no option follows. Help is given even
if the options are not in order. -/
def afterInspect (options : Option Options) : List String → Command
  | [] | ["--"] => options.elim .misuse .inspect
  | argument :: _ =>
    if argument = "--help" ∨ argument.startsWith "-h" then .print inspectHelpText else .misuse

def afterHelp : List String → Command
  | [] => .print helpText
  | ["inspect"] => .print inspectHelpText
  | ["help"] => .print helpHelpText
  | _ => .misuse

/-- The text behind a prefix, if the prefix is there. -/
def behind? (front text : String) : Option String :=
  if text.startsWith front then some (String.ofList (text.toList.drop front.length)) else none

/-- Whether an argument can be the value of an option; a dash in front makes it an option, unless it
stands alone. -/
def isValue (argument : String) : Bool := argument = "-" || !argument.startsWith "-"

/-- An option written in one argument with its value. -/
def assignment? (argument : String) : Option (OptionName × String) :=
  ((behind? "--config=" argument).map (OptionName.config, ·)).or
    ((behind? "--data-dir=" argument).map (OptionName.dataDir, ·))

/-- Options come before the command, each at most once. One with its value in the next argument
waits, and is settled only by a further option or by the inspection: a request for help that comes
before that is answered. -/
def parseFrom (options : Options) (waiting : Option (OptionName × String)) :
    List String → Command
  | [] => .misuse
  | "inspect" :: rest => afterInspect (options.settle? waiting) rest
  | "help" :: rest => afterHelp rest
  | "--config" :: value :: rest =>
    match options.settle? waiting with
    | some options =>
      if isValue value then parseFrom options (some (.config, value)) rest else .misuse
    | none => .misuse
  | "--data-dir" :: value :: rest =>
    match options.settle? waiting with
    | some options =>
      if isValue value then parseFrom options (some (.dataDir, value)) rest else .misuse
    | none => .misuse
  | argument :: rest =>
    match options.settle? waiting with
    | some options =>
      if argument = "--version" ∨ argument.startsWith "-V" then .print versionText
      else if argument = "--help" ∨ argument.startsWith "-h" then .print helpText
      else
        match (assignment? argument).bind fun (name, value) => options.set? name value with
        | some options => parseFrom options none rest
        | none => .misuse
    | none => .misuse

def parse (arguments : List String) : Command := parseFrom .empty none arguments

/-- The settings that the options and the environment give. -/
def settings (toml : Toml.Library) (options : Options) (env : Settings.Environment)
    (disk : Disk) : Except SettingsFault Settings := do
  let settings ← Settings.load toml disk options.config env
  return { settings with dataDir := options.dataDir.getD settings.dataDir }

/-- A text with blanks in front, to fill a column. -/
def column (width : Nat) (text : String) : String :=
  String.ofList (List.replicate (width - text.length) ' ') ++ text

def row (bucket queues entries records : String) : String :=
  column 6 bucket ++ " " ++ column 8 queues ++ " " ++ column 10 entries ++ " " ++
    column 10 records ++ "\n"

def summaryRow (summary : Store.BucketSummary) : String :=
  row (toString summary.index) (toString summary.queues) (toString summary.entries)
    (toString summary.journalRecords)

/-- The report on a store: a row for each bucket that is not blank, and totals. -/
def report (store : Store) : Except QueueFault String := do
  let summaries ← (List.range store.bucketCount).mapM store.summary
  let rows := (summaries.filter fun s => s.entries != 0 || s.journalRecords != 0).map summaryRow
  let total (count : Store.BucketSummary → Nat) : Nat := summaries.foldr (fun s n => count s + n) 0
  return row "bucket" "queues" "entries" "records" ++ String.join rows ++
    "queues=" ++ toString (total (·.queues)) ++
    " entries=" ++ toString (total (·.entries)) ++ "\n" ++
    "qos0_bytes=" ++ toString store.budget.used.toNat ++
    " qos0_limit=" ++ toString store.budget.limit.toNat ++
    " next_sequence=" ++ toString store.sequence.next.toNat ++ "\n"

/-- The outcome of a run: exit code, standard output and, after a failure, the first line of
standard error. -/
structure Outcome where
  code : Nat
  output : String
  complaint : Option String
  deriving DecidableEq, Repr

def Outcome.failed (message : String) : Outcome := ⟨1, "", some ("Error: " ++ message)⟩

def inspect (toml : Toml.Library) (settings : Settings) (disk : Disk) : Outcome :=
  match Store.openReadOnly toml settings disk with
  | .error fault => .failed fault.message
  | .ok store =>
    match report store, store.close with
    | .error fault, _ => .failed fault.message
    | .ok output, (.error fault, _) => ⟨1, output, some ("Error: " ++ fault.message)⟩
    | .ok output, (.ok (), _) => ⟨0, output, none⟩

def run (toml : Toml.Library) (arguments : List String) (env : Settings.Environment)
    (disk : Disk) : Outcome :=
  match parse arguments with
  | .print text => ⟨0, text, none⟩
  | .misuse => ⟨2, "", none⟩
  | .inspect options =>
    match settings toml options env disk with
    | .error fault => .failed fault.message
    | .ok settings => inspect toml settings disk

end DeliveryQueue.CommandLine
