import DeliveryQueue.Toml.Quoted

/-!
TOML documents: the text of a document is a list of statements, and the statements build the table
that the document means.
-/
namespace DeliveryQueue.Toml

inductive Statement
  | assign (key : List String) (value : Value)
  /-- `[key]` -/
  | header (key : List String)
  /-- `[[key]]` -/
  | element (key : List String)

/-- The blanks, line breaks and comments between the items of an array or a table are left out. -/
def skipFiller (comment : Bool) : List Char → Option (List Char)
  | [] => some []
  | '\r' :: '\n' :: rest => skipFiller false rest
  | c :: rest =>
    if c = '\n' then skipFiller false rest
    else if comment then if isControl c then none else skipFiller true rest
    else if c = ' ' ∨ c = '\t' then skipFiller false rest
    else if c = '#' then skipFiller true rest
    else some (c :: rest)

mutual

/-- Reads a value in which brackets and braces nest at most `room` deep. Whatever is read takes up
characters, so the length is fuel enough. -/
def readValue : Nat → Nat → List Char → Option (Value × List Char)
  | 0, _, _ => none
  | fuel + 1, room, chars =>
    match chars, room with
    | '[' :: _, 0 | '{' :: _, 0 => none
    | '[' :: rest, room + 1 => do
      let (items, rest) ← readItems fuel room (← skipFiller false rest)
      return (.array items, rest)
    | '{' :: rest, room + 1 => do
      let (entries, rest) ← readPairs fuel room [] (← skipFiller false rest)
      return (.table .closed entries, rest)
    | '"' :: _, _ | '\'' :: _, _ => do
      let (text, rest) ← readString chars
      return (.string text, rest)
    | _, _ => do
      let (word, rest) := splitWord chars
      return (← scalar? word, rest)

/-- Items up to the closing bracket, with or without a comma behind the last. -/
def readItems : Nat → Nat → List Char → Option (List Value × List Char)
  | 0, _, _ => none
  | fuel + 1, room, chars =>
    match chars with
    | ']' :: rest => some ([], rest)
    | _ => do
      let (item, rest) ← readValue fuel room chars
      match ← skipFiller false rest with
      | ',' :: rest =>
        let (items, rest) ← readItems fuel room (← skipFiller false rest)
        return (item :: items, rest)
      | ']' :: rest => return ([item], rest)
      | _ => none

/-- Assignments up to the closing brace, with or without a comma behind the last. Between braces
filler may stand also around the sign of an assignment. -/
def readPairs : Nat → Nat → Entries → List Char → Option (Entries × List Char)
  | 0, _, _, _ => none
  | fuel + 1, room, entries, chars =>
    match chars with
    | '}' :: rest => some (entries, rest)
    | _ => do
      let (key, rest) ← readKey chars
      match ← skipFiller false rest with
      | '=' :: rest =>
        let (value, rest) ← readValue fuel room (← skipFiller false rest)
        let entries ← Entries.assign? key value entries
        match ← skipFiller false rest with
        | ',' :: rest => readPairs fuel room entries (← skipFiller false rest)
        | '}' :: rest => return (entries, rest)
        | _ => none
      | _ => none

end

/-- A comment lasts up to the end of its line. -/
def skipComment : List Char → Option (List Char)
  | [] => some []
  | '\r' :: '\n' :: rest => some ('\r' :: '\n' :: rest)
  | c :: rest =>
    if c = '\n' then some (c :: rest) else if isControl c then none else skipComment rest

/-- Nothing but blanks and a comment may follow on a line. -/
def endLine (chars : List Char) : Option (List Char) := do
  let rest ← match skipBlanks chars with
    | '#' :: rest => skipComment rest
    | rest => some rest
  match rest with
  | [] => return []
  | '\n' :: rest | '\r' :: '\n' :: rest => return rest
  | _ => none

/-- The statement on a line, if it holds one, and the lines after it. -/
def readLine (chars : List Char) : Option (Option Statement × List Char) :=
  match skipBlanks chars with
  | [] => some (none, [])
  | '#' :: rest => do return (none, ← endLine ('#' :: rest))
  | '\n' :: rest | '\r' :: '\n' :: rest => some (none, rest)
  | '[' :: '[' :: rest => do
    let (key, rest) ← readKey (skipBlanks rest)
    match rest with
    | ']' :: ']' :: rest => return (some (.element key), ← endLine rest)
    | _ => none
  | '[' :: rest => do
    let (key, rest) ← readKey (skipBlanks rest)
    match rest with
    | ']' :: rest => return (some (.header key), ← endLine rest)
    | _ => none
  | chars => do
    let (key, rest) ← readKey chars
    match rest with
    | '=' :: rest =>
      let (value, rest) ← readValue (rest.length + 1) maxDepth (skipBlanks rest)
      return (some (.assign key value), ← endLine rest)
    | _ => none

/-- Lines take up characters, so the length is fuel enough. -/
def readLines : Nat → List Char → Option (List Statement)
  | _, [] => some []
  | 0, _ => none
  | fuel + 1, chars => do
    let (statement, rest) ← readLine chars
    let statements ← readLines fuel rest
    return statement.toList ++ statements

/-- A byte order mark in front does not count. -/
def dropMark : List Char → List Char
  | '\uFEFF' :: rest => rest
  | chars => chars

def statements? (text : String) : Option (List Statement) :=
  let chars := dropMark text.toList
  readLines chars.length chars

/-- What has been built, and the table that assignments go to. -/
structure Building where
  entries : Entries
  current : List String

namespace Building

def add? (building : Building) : Statement → Option Building
  | .assign key value => do
    let entries ← Entries.changeAt false (Entries.assign? key value) building.current
      building.entries
    return { building with entries }
  | .header key => do
    let entries ← Entries.changeAt false (Entries.state? (key.getLast?.getD "")) key.dropLast
      building.entries
    return ⟨entries, key⟩
  | .element key => do
    let entries ← Entries.changeAt false (Entries.extend? (key.getLast?.getD "")) key.dropLast
      building.entries
    return ⟨entries, key⟩

end Building

/-- The table that a document means, or nothing if the text is no document. -/
def document? (text : String) : Option Entries := do
  let statements ← statements? text
  let building ← statements.foldlM Building.add? ⟨[], []⟩
  return building.entries

end DeliveryQueue.Toml
