import DeliveryQueue.FileContent
import DeliveryQueue.Path
import Std.Data.ExtTreeMap.Basic

/-!
A tree of directories and files. A path is followed step by step, and each step but the last has to
lead into a directory that is there. A name leads to a file by number, so a file opened earlier
stays the same file when its name is taken away or given to another.
-/
namespace DeliveryQueue

/-- Why a call on the disk fails. -/
inductive IoFault
  | notFound
  | alreadyExists
  | notDirectory
  | isDirectory
  | nameTooLong
  | fileTooLarge
  | nulInName
  | notUtf8
  /-- The device of a file fails. -/
  | device
  /-- A journal in memory was told to fail this kind of call. -/
  | injected (call : String)
  deriving DecidableEq, Repr

def IoFault.message : IoFault → String
  | notFound => "No such file or directory (os error 2)"
  | alreadyExists => "File exists (os error 17)"
  | notDirectory => "Not a directory (os error 20)"
  | isDirectory => "Is a directory (os error 21)"
  | nameTooLong => "File name too long (os error 36)"
  | fileTooLarge => "File too large (os error 27)"
  | nulInName => "file name contained an unexpected NUL byte"
  | notUtf8 => "stream did not contain valid UTF-8"
  | device => "Input/output error (os error 5)"
  | injected call => "injected " ++ call ++ " failure"

/-- What a name leads to: a directory or a file, by its number. -/
inductive Node
  | directory (number : Nat)
  | file (number : Nat)
  deriving DecidableEq, Repr

/-- The names in a directory. -/
abbrev Directory := Std.ExtTreeMap String Node

structure Disk where
  /-- The directories by number. The first is the root. -/
  directories : Array Directory
  /-- The files by number. -/
  files : Array FileContent
  /-- The steps from the root to where paths begin that do not begin at the root. -/
  workingDirectory : List String
  deriving DecidableEq, Repr

/-- The directories on the way from the root, the last first. The root is not among them. -/
abbrev Trail := List Nat

/-- The directory that a trail ends in. -/
def Trail.last (trail : Trail) : Nat := trail.headD 0

/-- What a path leads to. -/
inductive Target
  | directory (trail : Trail)
  /-- A file, by the directory it is in and the name it has there. -/
  | file (directory : Nat) (name : String) (number : Nat)
  deriving DecidableEq, Repr

namespace Disk

/-- Nothing but the root. -/
def empty : Disk := ⟨#[∅], #[], []⟩

instance : Inhabited Disk := ⟨empty⟩

/-- The most bytes that a name may have. -/
def maxName : Nat := 255

/-- The most bytes that a path may have. -/
def maxPath : Nat := 4095

/-- The most bytes that a file may have. -/
def maxLength : Nat := UInt64.size / 2 - 1

/-- The steps that lead to where a path begins, if it is one that can be followed. -/
def start (disk : Disk) (path : Path) : Except IoFault (List String) :=
  let text := path.text
  if '\x00' ∈ text.toList then .error .nulInName
  else if text = "" then .error .notFound
  else if maxPath < text.utf8ByteSize then .error .nameTooLong
  else .ok (if path.absolute then [] else disk.workingDirectory)

def directory (disk : Disk) (number : Nat) : Directory := (disk.directories[number]?).getD ∅

/-- What has a name in a directory. -/
def entry (disk : Disk) (directory : Nat) (name : String) : Except IoFault (Option Node) :=
  if maxName < name.utf8ByteSize then .error .nameTooLong
  else .ok (disk.directory directory)[name]?

/-- What steps from a directory lead to. Nothing leads on from a file, not even an idle step. -/
def follow (disk : Disk) (trail : Trail) : List String → Except IoFault Target
  | [] => .ok (.directory trail)
  | step :: rest =>
    if Path.isIdle step then disk.follow trail rest
    else if step = ".." then disk.follow trail.tail rest
    else
      match disk.entry trail.last step with
      | .error fault => .error fault
      | .ok none => .error .notFound
      | .ok (some (.directory number)) => disk.follow (number :: trail) rest
      | .ok (some (.file number)) =>
        if rest = [] then .ok (.file trail.last step number) else .error .notDirectory

/-- What stands at the end of a path. -/
def resolve (disk : Disk) (path : Path) : Except IoFault Target := do
  disk.follow [] ((← disk.start path) ++ path.steps)

/-- The directory that the end of a path is in and the name it has there. Only directories are
named by dots or by the root, and those without a name. -/
def ending (disk : Disk) (path : Path) : Except IoFault (Option (Nat × String)) := do
  let first ← disk.start path
  match path.steps.reverse.dropWhile (· == "") with
  | [] => return none
  | name :: before =>
    match ← disk.follow [] (first ++ before.reverse ++ [""]) with
    | .directory trail =>
      return if name = "." ∨ name = ".." then none else some (trail.last, name)
    | .file _ _ _ => .error .notDirectory

/-- Let a name in a directory lead to a node. -/
def link (disk : Disk) (directory : Nat) (name : String) (node : Node) : Disk :=
  { disk with directories := disk.directories.modify directory (·.insert name node) }

/-- Take a name in a directory away. -/
def unlink (disk : Disk) (directory : Nat) (name : String) : Disk :=
  { disk with directories := disk.directories.modify directory (·.erase name) }

/-! Files -/

def file (disk : Disk) (number : Nat) : FileContent := (disk.files[number]?).getD .empty

def content (disk : Disk) (number : Nat) : Bytes := (disk.file number).bytes

def changeContent (disk : Disk) (number : Nat) (change : FileContent → FileContent) : Disk :=
  { disk with files := disk.files.modify number change }

def setContent (disk : Disk) (number : Nat) (bytes : Bytes) : Disk :=
  disk.changeContent number fun _ => .ofBytes bytes

/-- The file at a path, if there is one, with its directory and its name there. -/
def findFile (disk : Disk) (path : Path) : Except IoFault (Nat × String × Nat) :=
  match disk.resolve path with
  | .ok (.file directory name number) => .ok (directory, name, number)
  | .ok (.directory _) => .error .isDirectory
  | .error fault => .error fault

def openFile (disk : Disk) (path : Path) : Except IoFault Nat := (·.2.2) <$> disk.findFile path

def readBytes (disk : Disk) (path : Path) : Except IoFault Bytes :=
  disk.content <$> disk.openFile path

def readText (disk : Disk) (path : Path) : Except IoFault String :=
  match disk.readBytes path with
  | .error fault => .error fault
  | .ok bytes =>
    match ofUtf8? bytes with
    | some text => .ok text
    | none => .error .notUtf8

/-- The file at a path, made empty in an existing directory if it is not there yet. -/
def openOrCreate (disk : Disk) (path : Path) : Except IoFault (Nat × Disk) :=
  match disk.ending path with
  | .error fault => .error fault
  | .ok none => .error .isDirectory
  | .ok (some (directory, name)) =>
    if path.endsInSlash then .error .isDirectory
    else
      match disk.entry directory name with
      | .error fault => .error fault
      | .ok (some (.directory _)) => .error .isDirectory
      | .ok (some (.file number)) => .ok (number, disk)
      | .ok none =>
        let number := disk.files.size
        .ok (number,
          { disk with files := disk.files.push .empty }.link directory name (.file number))

/-- Give the file at a path this content, making the file if need be. -/
def writeFile (disk : Disk) (path : Path) (bytes : Bytes) : Except IoFault Disk := do
  let (number, disk) ← disk.openOrCreate path
  return disk.setContent number bytes

/-- Write at the end of an existing file. -/
def appendFile (disk : Disk) (path : Path) (bytes : Bytes) : Except IoFault Disk := do
  return disk.changeContent (← disk.openFile path) (·.append bytes)

/-- Cut an existing file to a length, or fill it up with zeros. -/
def resizeFile (disk : Disk) (path : Path) (length : Nat) : Except IoFault Disk := do
  let number ← disk.openFile path
  if maxLength < length then .error .fileTooLarge
  else return disk.changeContent number (·.resize length)

/-- Overwrite an existing file from `offset` on. -/
def overwriteFile (disk : Disk) (path : Path) (offset : Nat) (bytes : Bytes) :
    Except IoFault Disk := do
  let number ← disk.openFile path
  if maxLength < offset + bytes.length then .error .fileTooLarge
  else return disk.changeContent number (·.overwrite offset bytes)

/-- Take the name of a file away. -/
def removeFile (disk : Disk) (path : Path) : Except IoFault Disk := do
  let (directory, name, _) ← disk.findFile path
  return disk.unlink directory name

/-- Give the file at `source` the name `target` in an existing directory, in the place of a file
that had it. -/
def renameFile (disk : Disk) (source target : Path) : Except IoFault Disk := do
  let (oldDirectory, oldName, number) ← disk.findFile source
  match ← disk.ending target with
  | none => .error .isDirectory
  | some (directory, name) =>
    if target.endsInSlash then .error .notDirectory
    else
      match ← disk.entry directory name with
      | some (.directory _) => .error .isDirectory
      | some (.file _) | none =>
        return (disk.unlink oldDirectory oldName).link directory name (.file number)

/-! Directories -/

def isDirectory (disk : Disk) (path : Path) : Bool :=
  match disk.resolve path with
  | .ok (.directory _) => true
  | _ => false

/-- Make a directory in an existing one. -/
def createDirectory (disk : Disk) (path : Path) : Except IoFault Disk := do
  match ← disk.ending path with
  | none => .error .alreadyExists
  | some (directory, name) =>
    match ← disk.entry directory name with
    | some _ => .error .alreadyExists
    | none =>
      return { disk with directories := disk.directories.push ∅ }.link directory name
        (.directory disk.directories.size)

/-- Make a directory in an existing one, unless it is there already. -/
def ensureDirectory (disk : Disk) (path : Path) : Except IoFault Unit × Disk :=
  match disk.createDirectory path with
  | .ok disk => (.ok (), disk)
  | .error fault => (if disk.isDirectory path then .ok () else .error fault, disk)

/-- Make the first of these directories. Where the one it is in is missing, the others are made
before it; they come with the nearest first. -/
def createAlong (disk : Disk) : List Path → Except IoFault Unit × Disk
  | [] => (.ok (), disk)
  | path :: further =>
    match disk.ensureDirectory path with
    | (.error .notFound, disk) =>
      match createAlong disk further with
      | (.ok (), disk) => disk.ensureDirectory path
      | failed => failed
    | answer => answer

/-- Make the directory at a path and those on the way that are missing. The disk is returned as it
is left, whether that succeeds or not. -/
def createDirectories (disk : Disk) (path : Path) : Except IoFault Unit × Disk :=
  if path.text = "" then (.ok (), disk) else disk.createAlong (path :: path.ancestors)

/-- The names in the directory at a path, in ascending order. -/
def names? (disk : Disk) (path : Path) : Option (List String) :=
  match disk.resolve path with
  | .ok (.directory trail) => some (disk.directory trail.last).keys
  | _ => none

/-- The length that a path reports: of a file its bytes, of a directory forty and twenty for each
name in it. -/
def length? (disk : Disk) (path : Path) : Option Nat :=
  match disk.resolve path with
  | .ok (.file _ _ number) => some (disk.file number).length
  | .ok (.directory trail) => some (40 + 20 * (disk.directory trail.last).size)
  | .error _ => none

end Disk

end DeliveryQueue
