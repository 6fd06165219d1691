/-!
Paths as they are named: the steps between the slashes of a text. Nothing of the text is lost,
since two names of one file are printed, and may be refused, in different ways.
-/
namespace DeliveryQueue

structure Path where
  /-- Whether a slash stands in front of the first step, so that the path begins at the root. -/
  absolute : Bool
  steps : List String
  deriving DecidableEq, Repr

namespace Path

/-- The parts of a text between slashes; `part` holds the characters of the first part read so far,
last one first. -/
def splitSlashes (part : List Char) : List Char → List String
  | [] => [String.ofList part.reverse]
  | c :: rest =>
    if c = '/' then String.ofList part.reverse :: splitSlashes [] rest
    else splitSlashes (c :: part) rest

def ofText (text : String) : Path :=
  match text.toList with
  | '/' :: rest => ⟨true, splitSlashes [] rest⟩
  | chars => ⟨false, splitSlashes [] chars⟩

/-- Steps with slashes between them. -/
def joinSlashes : List String → List Char
  | [] => []
  | [step] => step.toList
  | step :: next :: rest => step.toList ++ '/' :: joinSlashes (next :: rest)

def text (path : Path) : String :=
  String.ofList ((if path.absolute then ['/'] else []) ++ joinSlashes path.steps)

theorem joinSlashes_cons {step : String} {steps : List String} (h : steps ≠ []) :
    joinSlashes (step :: steps) = step.toList ++ '/' :: joinSlashes steps := by
  cases steps with
  | nil => exact absurd rfl h
  | cons next rest => rfl

/-- The path of `name` in the directory that `path` names. -/
def join (path : Path) (name : String) : Path :=
  let steps := if path.steps.getLast? = some "" then path.steps.dropLast else path.steps
  { path with steps := steps ++ [name] }

/-- A step that leads nowhere: two slashes in a row, a slash at the end, or a dot. -/
def isIdle (step : String) : Bool := step = "" || step = "."

/-- Whether a slash stands at the end. -/
def endsInSlash (path : Path) : Bool := path.steps.getLast? = some ""

/-- The ways that stop at one of these steps and not at an idle one, the longest first. The steps
come last one first. -/
def waysAlong : List String → List (List String)
  | [] => []
  | step :: before =>
    if isIdle step then waysAlong before else (step :: before).reverse :: waysAlong before

/-- The path without idle steps at its end, and the paths to the directories on the way, the
nearest to the end first. -/
def stages (path : Path) : List Path :=
  (waysAlong path.steps.reverse).map (⟨path.absolute, ·⟩)

/-- The paths to the directories on the way, the nearest to the end first. -/
def ancestors (path : Path) : List Path := path.stages.drop 1

/-- The path to the directory that the end of a path is in. -/
def parent (path : Path) : Path := path.ancestors.headD ⟨path.absolute, []⟩

/-- A name with another extension. The old one ends the name, behind its last dot, but a dot in
front of a name begins none. Where two dots are all that is left before the old extension, they
name the directory above and take no other. -/
def exchangeExtension (name extension : String) : String :=
  match name.toList with
  | [] => name
  | first :: rest =>
    if '.' ∈ rest then
      let kept := first :: (rest.reverse.dropWhile (· != '.')).reverse
      if kept = ['.', '.'] then ".." else String.ofList kept ++ extension
    else name ++ "." ++ extension

/-- The path with another extension in its last name. -/
def withExtension (path : Path) (extension : String) : Path :=
  match path.steps.reverse.dropWhile isIdle with
  | [] => path
  | name :: before => { path with steps := (exchangeExtension name extension :: before).reverse }

end Path

end DeliveryQueue
