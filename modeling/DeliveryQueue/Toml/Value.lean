/-!
The values of a TOML document.
-/
namespace DeliveryQueue.Toml

/-- How a table came about. It decides what may still be added to it. -/
inductive TableForm
  /-- Written in braces. Nothing can be added. -/
  | closed
  /-- Named by a header of its own. -/
  | stated
  /-- Only named on the way to another header. -/
  | implied
  /-- Made by a dotted key. -/
  | dotted
  deriving DecidableEq, Repr

inductive Value
  | string (text : String)
  | integer (n : Int)
  /-- A float, as written. -/
  | float (text : String)
  | boolean (b : Bool)
  /-- A date, a time or both, as written. -/
  | moment (text : String)
  | array (items : List Value)
  | table (form : TableForm) (entries : List (String × Value))
  /-- The tables under headers in double brackets. -/
  | tables (elements : List (List (String × Value)))
  deriving Repr

abbrev Entries := List (String × Value)

namespace Value

def string? : Value → Option String
  | string text => some text
  | _ => none

/-- An integer from zero up to, but not including, `bound`. -/
def natural? (bound : Nat) : Value → Option Nat
  | integer (.ofNat n) => if n < bound then some n else none
  | _ => none

/-- Whether there is nothing in an array or a table. -/
def isEmptyContainer : Value → Bool
  | array items => items.isEmpty
  | table _ entries => entries.isEmpty
  | _ => false

end Value

namespace Entries

/-- Put a value under a key that has one already. -/
def replace (key : String) (value : Value) (entries : Entries) : Entries :=
  entries.map fun e => if e.1 = key then (key, value) else e

/-- Put a value under a key that has none yet. -/
def add? (key : String) (value : Value) (entries : Entries) : Option Entries :=
  match entries.lookup key with
  | some _ => none
  | none => some (entries ++ [(key, value)])

/-- Whether a path may lead into a table of this form. A dotted key may only go through what headers
left unnamed, and only end in what dotted keys made. -/
def mayEnter (dottedKey atEnd : Bool) : TableForm → Bool
  | .closed => false
  | .stated => !dottedKey
  | .implied => !(dottedKey && atEnd)
  | .dotted => true

/-- Change the table at the end of a path. Missing tables are made, and of the tables of an array
the last one is meant. -/
def changeAt (dottedKey : Bool) (change : Entries → Option Entries) :
    List String → Entries → Option Entries
  | [], entries => change entries
  | key :: path, entries =>
    match entries.lookup key with
    | none => do
      let inner ← changeAt dottedKey change path []
      return entries ++ [(key, .table (if dottedKey then .dotted else .implied) inner)]
    | some (.table form inner) =>
      if mayEnter dottedKey path.isEmpty form then do
        let inner ← changeAt dottedKey change path inner
        return replace key (.table form inner) entries
      else none
    | some (.tables elements) =>
      if mayEnter dottedKey path.isEmpty .implied then
        match elements.getLast? with
        | none => none
        | some last => do
          let last ← changeAt dottedKey change path last
          return replace key (.tables (elements.dropLast ++ [last])) entries
      else none
    | some _ => none

/-- Set a dotted key. -/
def assign? (path : List String) (value : Value) (entries : Entries) : Option Entries :=
  match path.getLast? with
  | none => none
  | some key => changeAt true (add? key value) path.dropLast entries

/-- Name a table by a header, once. -/
def state? (key : String) (entries : Entries) : Option Entries :=
  match entries.lookup key with
  | none => some (entries ++ [(key, .table .stated [])])
  | some (.table .implied inner) => some (replace key (.table .stated inner) entries)
  | some _ => none

/-- Begin one more table of an array. -/
def extend? (key : String) (entries : Entries) : Option Entries :=
  match entries.lookup key with
  | none => some (entries ++ [(key, .tables [[]])])
  | some (.tables elements) => some (replace key (.tables (elements ++ [[]])) entries)
  | some _ => none

end Entries

end DeliveryQueue.Toml
