/-!
# Kinds of holes

A template says of each of its holes what may fill it: a name, a type, or any tree.
-/

namespace Kiln

/-- What may fill a hole. -/
inductive HoleKind where
  /-- A name, which may also be pasted into longer names. -/
  | ident
  /-- A type expression. -/
  | type
  /-- Any tree. -/
  | fragment
  deriving DecidableEq, Repr, Inhabited

namespace HoleKind

/-- The word that names the kind in a template's header. -/
def word : HoleKind → String
  | ident => "ident"
  | type => "type"
  | fragment => "fragment"

/-- The kind a word names. -/
def ofWord? (w : String) : Option HoleKind :=
  [ident, type, fragment].find? fun k => k.word = w

/-- The kind as messages speak of it. -/
def describe : HoleKind → String
  | ident => "an identifier"
  | type => "a type"
  | fragment => "a fragment"

end HoleKind

end Kiln
