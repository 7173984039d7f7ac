/-!
# TOML values

A document is a table. A table remembers how it came about, for that decides what may
still be added to it: a header claims a table for good, while a table that only stands
in the way to another one can be claimed later.
-/

namespace Kiln

namespace Toml

/-- How a table came about. -/
inductive Opened where
  /-- By a header of its own, or as the document itself. -/
  | header
  /-- As a step of a longer header. -/
  | passed
  /-- As a step of a dotted key. -/
  | dotted
  deriving DecidableEq, Repr, Inhabited

/-- What a key can have. -/
inductive Value where
  | text (text : String)
  | integer (value : Int)
  | bool (value : Bool)
  /-- A number with a fraction or an exponent, as it is written. -/
  | float (written : String)
  /-- A date, a time or both, as it is written. -/
  | moment (written : String)
  | array (items : List Value)
  /-- A table between braces, which nothing can be added to. -/
  | closed (entries : List (String × Value))
  | table (opened : Opened) (entries : List (String × Value))
  /-- Tables under one header, the latest first. -/
  | tables (items : List Value)
  deriving Repr, Inhabited

/-- Keys and what they have. -/
abbrev Entries := List (String × Value)

/-- The entries with the value of a key replaced, or with the key added behind. -/
def Entries.put (entries : Entries) (key : String) (value : Value) : Entries :=
  match entries with
  | [] => [(key, value)]
  | e :: es => if e.1 = key then (key, value) :: es else e :: Entries.put es key value

namespace Value

/-- The entries of any kind of table. -/
def entries? : Value → Option Entries
  | closed entries => some entries
  | table _ entries => some entries
  | _ => none

/-- The items of an array or of the tables under one header, in order. -/
def items? : Value → Option (List Value)
  | array items => some items
  | tables items => some items.reverse
  | _ => none

/-- The text that a value is. -/
def text? : Value → Option String
  | text s => some s
  | _ => none

/-- The natural number that a value is. -/
def nat? : Value → Option Nat
  | integer (.ofNat n) => some n
  | _ => none

end Value

/-- Changes the table that a path leads to. Tables that are missing on the way are opened
as `opening` says; of the tables under one header the path goes into the latest. A dotted
key may not pass a table that has a header. -/
def within (opening : Opened) (change : Opened → Entries → Option Entries) :
    List String → Opened → Entries → Option Entries
  | [], opened, entries => change opened entries
  | key :: path, _, entries =>
    match entries.lookup key with
    | none => do
      let inner ← within opening change path opening []
      return entries.put key (.table opening inner)
    | some (.table opened inner) =>
      if opening = .dotted && opened = .header then none
      else do
        let inner ← within opening change path opened inner
        return entries.put key (.table opened inner)
    | some (.tables (.table opened inner :: earlier)) => do
      let inner ← within opening change path opened inner
      return entries.put key (.tables (.table opened inner :: earlier))
    | some _ => none

/-- Gives a dotted key its value, in a table. A key has one value, and only a dotted key
adds to what dotted keys have opened. -/
def assign (path : List String) (key : String) (value : Value) (opened : Opened)
    (entries : Entries) : Option Entries :=
  within .dotted
    (fun opened entries =>
      if decide (opened = .dotted) == path.isEmpty then none
      else if (entries.lookup key).isSome then none
      else some (entries.put key value))
    path opened entries

/-- Opens the table of a header. It may have been passed before, and nothing else. -/
def openTable (key : String) (_ : Opened) (entries : Entries) : Option Entries :=
  match entries.lookup key with
  | none => some (entries.put key (.table .header []))
  | some (.table .passed inner) => some (entries.put key (.table .header inner))
  | some _ => none

/-- Opens one more of the tables under a header. -/
def openNext (key : String) (_ : Opened) (entries : Entries) : Option Entries :=
  match entries.lookup key with
  | none => some (entries.put key (.tables [.table .header []]))
  | some (.tables items) => some (entries.put key (.tables (.table .header [] :: items)))
  | some _ => none

/-- The table that entries between braces make. -/
def close (pairs : List (List String × String × Value)) : Option Value := do
  let entries ← pairs.foldlM (fun entries p => assign p.1 p.2.1 p.2.2 .header entries) []
  return .closed entries

/-- What a line of a document says. -/
inductive Line where
  /-- A header: the table of the path's last key is open from here on. -/
  | table (path : List String) (key : String)
  /-- A header of one more table of several. -/
  | next (path : List String) (key : String)
  /-- A value for a dotted key of the open table. -/
  | entry (path : List String) (key : String) (value : Value)
  deriving Repr

/-- A document that is being put together: its entries, and the path of the open table. -/
structure Draft where
  entries : Entries
  current : List String

/-- Takes in one more line. -/
def Draft.add (d : Draft) : Line → Option Draft
  | .table path key => do
    let entries ← within .passed (openTable key) path .header d.entries
    return ⟨entries, path ++ [key]⟩
  | .next path key => do
    let entries ← within .passed (openNext key) path .header d.entries
    return ⟨entries, path ++ [key]⟩
  | .entry path key value => do
    let entries ← within .passed (assign path key value) d.current .header d.entries
    return ⟨entries, d.current⟩

/-- The table that the lines of a document make. -/
def ofLines (lines : List Line) : Option Value := do
  let d ← lines.foldlM Draft.add ⟨[], []⟩
  return .table .header d.entries

end Toml

end Kiln
