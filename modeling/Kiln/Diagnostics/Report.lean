/-!
# Reports

What whoever runs the program is told apart from its results: records of what was
done, each of some weight, and notices, which are plain lines or reports that point
into a text.
-/

namespace Kiln

/-- The weight of a record. -/
inductive Level where
  | info
  | warning
  | error
  deriving DecidableEq, Repr

/-- The word a level is written as. -/
def Level.word : Level → String
  | info => "INFO"
  | warning => "WARN"
  | error => "ERROR"

/-- Something that was done, or that went wrong. -/
structure Record where
  level : Level
  message : String
  deriving DecidableEq, Repr

/-- The written form of a record. -/
def Record.render (r : Record) : String := r.level.word ++ " " ++ r.message

/-- A stretch of a text. -/
structure Pointer where
  /-- What the text is called. -/
  source : String
  /-- Where the stretch starts, in bytes. -/
  offset : Nat
  /-- How many bytes it has. -/
  length : Nat
  deriving DecidableEq, Repr

/-- An error for a reader: what it is, where it is, and what may help. -/
structure Report where
  /-- The kind of error, for errors of a kind that has a name. -/
  code : Option String
  message : String
  help : Option String
  /-- The place, for errors that have one; there the message is shown. -/
  place : Option Pointer
  deriving DecidableEq, Repr

/-- Something written among the errors. -/
inductive Notice where
  | line (text : String)
  | report (report : Report)
  deriving DecidableEq, Repr

/-- Everything told so far, oldest first. -/
structure Journal where
  records : List Record
  notices : List Notice
  deriving DecidableEq, Repr, Inhabited

namespace Journal

/-- Nothing was told. -/
def empty : Journal := ⟨[], []⟩

/-- One record more. -/
def record (j : Journal) (level : Level) (message : String) : Journal :=
  { j with records := j.records ++ [⟨level, message⟩] }

/-- One notice more. -/
def notice (j : Journal) (n : Notice) : Journal := { j with notices := j.notices ++ [n] }

end Journal

end Kiln
