import DeliveryQueue.Toml.Quoted

/-!
How a text is written in TOML: in the plainest of the four kinds of quotes in which nothing has to
be escaped, or else in double quotes with escapes. From texts and numbers a document is made that
has a line for each.
-/
namespace DeliveryQueue.Toml

/-- How many characters `c` stand in a row at most; `run` of them stand in front. -/
def longestRun (c : Char) (run : Nat) : List Char → Nat
  | [] => run
  | d :: rest => if d = c then longestRun c (run + 1) rest else max run (longestRun c 0 rest)

inductive Quotes
  | basic
  | literal
  | basicLines
  | literalLines
  deriving DecidableEq, Repr

/-- The quotes for a text. Single quotes cannot escape anything; in three quotes up to two in a row
may stand in the text. -/
def Quotes.ofText (chars : List Char) : Quotes :=
  let lines := chars.contains '\n'
  let doubles := longestRun '"' 0 chars
  let singles := longestRun '\'' 0 chars
  let plain := !chars.contains '\\'
  if chars.any fun c => isControl c && c != '\n' then if lines then .basicLines else .basic
  else if plain && doubles == 0 && !lines then .basic
  else if singles == 0 && !lines then .literal
  else if plain && doubles ≤ 2 then .basicLines
  else if singles ≤ 2 then .literalLines
  else if lines then .basicLines
  else .basic

def hexCapital (n : Nat) : Char :=
  if n < 10 then Char.ofNat (48 + n) else Char.ofNat (55 + n)

/-- A character as it stands between double quotes. -/
def escaped (c : Char) : List Char :=
  match c with
  | '\x08' => ['\\', 'b']
  | '\t' => ['\\', 't']
  | '\n' => ['\\', 'n']
  | '\x0C' => ['\\', 'f']
  | '\r' => ['\\', 'r']
  | '"' => ['\\', '"']
  | '\\' => ['\\', '\\']
  | c =>
    if isControl c then ['\\', 'u', '0', '0', hexCapital (c.toNat / 16), hexCapital (c.toNat % 16)]
    else [c]

/-- The text between three double quotes, where line breaks stay and a quote is escaped if two stand
in front of it; `run` of them do. -/
def escapedLines (run : Nat) : List Char → List Char
  | [] => []
  | c :: rest =>
    if c = '"' ∧ run < 2 then c :: escapedLines (run + 1) rest
    else if c = '\n' then c :: escapedLines 0 rest
    else escaped c ++ escapedLines 0 rest

/-- The text in its quotes. A line break is put in front of a text of several lines, where it does
not count. -/
def quoted (text : String) : String :=
  let chars := text.toList
  let first := if chars.contains '\n' then "\n" else ""
  match Quotes.ofText chars with
  | .basic => "\"" ++ String.ofList (chars.flatMap escaped) ++ "\""
  | .literal => "'" ++ text ++ "'"
  | .basicLines => "\"\"\"" ++ first ++ String.ofList (escapedLines 0 chars) ++ "\"\"\""
  | .literalLines => "'''" ++ first ++ text ++ "'''"

example : quoted "crc32" = "\"crc32\"" := by decide +kernel
example : quoted "a\\b" = "'a\\b'" := by decide +kernel
example : quoted "it's \"so\"" = "\"\"\"it's \"so\"\"\"\"" := by decide +kernel

/-- What is written reads back. -/
example :
    ["", "a\tb\x1B", "a\\b", "\"", "'\"", "'\"\"\"", "\n", "'''\n\"\"\"", "\\'''\"\"\"\"\n\x07"].all
      (fun text => readString (quoted text).toList = some (text, [])) = true := by
  decide +kernel

/-- A value as it stands behind its key. Only texts are written, and integers that fit into 64 bits,
with a sign or without. -/
def written? : Value → Option String
  | .string text => some (quoted text)
  | .integer n => if -0x8000000000000000 ≤ n ∧ n < UInt64.size then some (toString n) else none
  | _ => none

/-- The document with these entries, whose keys have to be bare. -/
def print? : Entries → Option String
  | [] => some ""
  | (key, value) :: rest => do
    return key ++ " = " ++ (← written? value) ++ "\n" ++ (← print? rest)

example : print? [("bucket_count", .integer 3), ("router", .string "crc32")] =
    some "bucket_count = 3\nrouter = \"crc32\"\n" := by decide +kernel

end DeliveryQueue.Toml
