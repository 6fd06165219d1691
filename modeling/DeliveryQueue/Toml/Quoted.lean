import DeliveryQueue.Toml.Scalar

/-!
Quoted texts and keys of TOML. Every reader takes what it reads off the front.
-/
namespace DeliveryQueue.Toml

open Text (isDigit)

/-- The control characters that may stand nowhere in a document as they are. -/
def isControl (c : Char) : Bool := (c.toNat < 0x20 && c != '\t') || c.toNat == 0x7F

/-- The character that hexadecimal digits name, if they name one. -/
def unicode? (digits : List Char) : Option Char :=
  if digits.all isHexDigit then
    let n := groupedValue 16 digits
    if n < 0xD800 ∨ (0xDFFF < n ∧ n < 0x110000) then some (Char.ofNat n) else none
  else none

/-- The character that a letter behind a backslash stands for. -/
def escape? : Char → Option Char
  | 'b' => some '\x08'
  | 'e' => some '\x1B'
  | 't' => some '\t'
  | 'n' => some '\n'
  | 'f' => some '\x0C'
  | 'r' => some '\r'
  | '"' => some '"'
  | '\\' => some '\\'
  | _ => none

/-- The text up to the closing quote; `done` holds what was read, last character first. -/
def readBasic (done : List Char) : List Char → Option (String × List Char)
  | [] => none
  | '"' :: rest => some (String.ofList done.reverse, rest)
  | '\\' :: 'x' :: a :: b :: rest =>
    match unicode? [a, b] with
    | some char => readBasic (char :: done) rest
    | none => none
  | '\\' :: 'u' :: a :: b :: c :: d :: rest =>
    match unicode? [a, b, c, d] with
    | some char => readBasic (char :: done) rest
    | none => none
  | '\\' :: 'U' :: a :: b :: c :: d :: e :: f :: g :: h :: rest =>
    match unicode? [a, b, c, d, e, f, g, h] with
    | some char => readBasic (char :: done) rest
    | none => none
  | '\\' :: c :: rest =>
    match escape? c with
    | some char => readBasic (char :: done) rest
    | none => none
  | c :: rest => if isControl c || c == '\\' then none else readBasic (c :: done) rest

def readLiteral (done : List Char) : List Char → Option (String × List Char)
  | [] => none
  | '\'' :: rest => some (String.ofList done.reverse, rest)
  | c :: rest => if isControl c then none else readLiteral (c :: done) rest

/-- Split off the raw text before three closing quotes. Up to two quotes more may stand in front of
them. With `escapes`, a backslash keeps the next character from closing. -/
def splitLines (quote : Char) (escapes : Bool) (done : List Char) :
    List Char → Option (List Char × List Char)
  | [] => none
  | '\r' :: '\n' :: rest => splitLines quote escapes ('\n' :: '\r' :: done) rest
  | '\\' :: c :: rest =>
    if escapes then splitLines quote escapes (c :: '\\' :: done) rest
    else splitLines quote escapes ('\\' :: done) (c :: rest)
  | c :: rest =>
    if c = quote ∧ rest.take 2 = [quote, quote] then
      let extra := ((rest.drop 2).takeWhile (· == quote)).take 2
      some (done.reverse ++ extra, rest.drop (2 + extra.length))
    else if isControl c && c != '\n' then none
    else splitLines quote escapes (c :: done) rest

/-- Put characters in the place of escapes, and take out each backslash at the end of a line with
the blanks and line breaks behind it. `joining` is set behind such a backslash and says whether its
line has ended, as it has to before anything else may follow. -/
def unescape (joining : Option Bool) : List Char → Option (List Char)
  | [] => do
    guard (joining != some false)
    return []
  | '\r' :: '\n' :: rest =>
    match joining with
    | some _ => unescape (some true) rest
    | none => (unescape none rest).map fun chars => '\r' :: '\n' :: chars
  | '\\' :: 'x' :: a :: b :: rest => do
    guard (joining != some false)
    let char ← unicode? [a, b]
    return char :: (← unescape none rest)
  | '\\' :: 'u' :: a :: b :: c :: d :: rest => do
    guard (joining != some false)
    let char ← unicode? [a, b, c, d]
    return char :: (← unescape none rest)
  | '\\' :: 'U' :: a :: b :: c :: d :: e :: f :: g :: h :: rest => do
    guard (joining != some false)
    let char ← unicode? [a, b, c, d, e, f, g, h]
    return char :: (← unescape none rest)
  | '\\' :: '\r' :: '\n' :: rest => do
    guard (joining != some false)
    unescape (some true) rest
  | '\\' :: c :: rest => do
    guard (joining != some false)
    if c = ' ' ∨ c = '\t' ∨ c = '\n' then
      unescape (some (c == '\n')) rest
    else
      let char ← escape? c
      return char :: (← unescape none rest)
  | c :: rest =>
    match joining with
    | some ended =>
      if c = ' ' ∨ c = '\t' ∨ c = '\n' then unescape (some (ended || c == '\n')) rest
      else if ended && c != '\\' then (unescape none rest).map (c :: ·)
      else none
    | none => if c = '\\' then none else (unescape none rest).map (c :: ·)

/-- A line break right behind the opening quotes does not count. -/
def dropFirstBreak : List Char → List Char
  | '\n' :: rest | '\r' :: '\n' :: rest => rest
  | chars => chars

/-- A text in quotes of any of the four kinds. -/
def readString : List Char → Option (String × List Char)
  | '"' :: '"' :: '"' :: rest => do
    let (raw, rest) ← splitLines '"' true [] (dropFirstBreak rest)
    return (String.ofList (← unescape none raw), rest)
  | '\'' :: '\'' :: '\'' :: rest => do
    let (raw, rest) ← splitLines '\'' false [] (dropFirstBreak rest)
    return (String.ofList raw, rest)
  | '"' :: rest => readBasic [] rest
  | '\'' :: rest => readLiteral [] rest
  | _ => none

def isKeyChar (c : Char) : Bool :=
  isDigit c || ('a' ≤ c && c ≤ 'z') || ('A' ≤ c && c ≤ 'Z') || c == '_' || c == '-'

/-- A key without dots: bare, or in quotes on one line. -/
def readSimpleKey : List Char → Option (String × List Char)
  | '"' :: rest => readBasic [] rest
  | '\'' :: rest => readLiteral [] rest
  | chars =>
    let key := chars.takeWhile isKeyChar
    if key.isEmpty then none else some (String.ofList key, chars.dropWhile isKeyChar)

def skipBlanks (chars : List Char) : List Char := chars.dropWhile fun c => c == ' ' || c == '\t'

/-- Keys with dots between them, no more than a number of them. -/
def readKeys : Nat → List Char → Option (List String × List Char)
  | 0, _ => none
  | most + 1, chars => do
    let (key, rest) ← readSimpleKey chars
    match skipBlanks rest with
    | '.' :: more =>
      let (keys, rest) ← readKeys most (skipBlanks more)
      return (key :: keys, rest)
    | rest => return ([key], rest)

/-- How many parts a dotted key may have, and how deep arrays and tables in braces may nest. -/
def maxDepth : Nat := 80

/-- A dotted key and what follows it and its blanks. -/
def readKey (chars : List Char) : Option (List String × List Char) := readKeys maxDepth chars

end DeliveryQueue.Toml
