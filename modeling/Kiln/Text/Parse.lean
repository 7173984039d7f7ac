/-!
# Parsing

A parser takes characters off the front of a text and makes something of them, or fails.
After a failure the next alternative starts where the failed one did.
-/

namespace Kiln

/-- Computations that take characters off a text, and may fail. -/
abbrev Parse := StateT (List Char) Option

namespace Parse

/-- What a parser makes of a whole text. -/
def all (p : Parse α) (cs : List Char) : Option α :=
  match p.run cs with
  | some (a, []) => some a
  | _ => none

/-- One character of a class. -/
def char (class_ : Char → Bool) : Parse Char := fun
  | c :: cs => if class_ c then some (c, cs) else none
  | [] => none

/-- Exactly these characters. -/
def word (w : String) : Parse Unit := fun cs =>
  if w.toList.isPrefixOf cs then some ((), cs.drop w.length) else none

/-- The end of the text. -/
def stop : Parse Unit := fun cs => if cs.isEmpty then some ((), []) else none

/-- The characters of a class that come next; there may be none. -/
def span (class_ : Char → Bool) : Parse (List Char) := fun cs =>
  some (cs.takeWhile class_, cs.dropWhile class_)

/-- The results of a parser for as long as it succeeds and takes something. -/
def manyFrom (p : Parse α) (cs : List Char) : List α × List Char :=
  match p.run cs with
  | none => ([], cs)
  | some (a, rest) =>
    if rest.length < cs.length then
      let (as, last) := manyFrom p rest
      (a :: as, last)
    else ([], cs)
termination_by cs.length

/-- A parser as often as possible. -/
def many (p : Parse α) : Parse (List α) := fun cs => some (manyFrom p cs)

/-- The characters that a parser takes. -/
def written (p : Parse α) : Parse (List Char) := fun cs => do
  let (_, rest) ← p.run cs
  return (cs.take (cs.length - rest.length), rest)

end Parse

end Kiln
