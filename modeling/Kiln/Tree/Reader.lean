import Kiln.Tree.Lexeme
/-!
# Reading

Trees are read off the tokens of a text in one pass. The lists that are still open
wait on a stack, each with the offset of its parenthesis and the items read so far,
last item first. Of two errors the one that comes first in the text is reported.
-/

namespace Kiln

/-- A list that is still open: where it starts, and what the level around it holds. -/
structure OpenList where
  start : Nat
  enclosing : List Tree
  deriving Repr

/-- Trees of the tokens that are left, given the items read at this level and the lists
around it. -/
def assemble (error? : Option SyntaxError) :
    List Token → List OpenList → List Tree → Except SyntaxError (List Tree)
  | [], levels, items =>
    match error?, levels with
    | some e, _ => .error e
    | none, [] => .ok items.reverse
    | none, level :: _ => .error ⟨.unclosedList, ⟨level.start, level.start + 1⟩⟩
  | ⟨.opening, s⟩ :: ts, levels, items => assemble error? ts (⟨s.start, items⟩ :: levels) []
  | ⟨.closing, s⟩ :: _, [], _ => .error ⟨.strayClose, s⟩
  | ⟨.closing, s⟩ :: ts, level :: levels, items =>
    assemble error? ts levels (.node items.reverse ⟨level.start, s.stop⟩ :: level.enclosing)
  | ⟨.atom a, s⟩ :: ts, levels, items => assemble error? ts levels (.leaf a s :: items)

/-- The forms of a text. -/
def readForms (text : String) : Except SyntaxError (List Tree) :=
  let s := scan 0 text.toList
  assemble s.error? s.tokens [] []

namespace Fragment

/-- Reads a whole unit: its forms become the items of one `do` list. -/
def readUnit (name text : String) : Except SyntaxError Fragment := do
  let forms ← readForms text
  let whole := Span.whole text
  return ⟨.node (.leaf (.sym "do") whole :: forms) whole, ⟨name, text⟩⟩

/-- Reads exactly one expression. -/
def readExpr (name text : String) : Except SyntaxError Fragment :=
  match readForms text with
  | .error e => .error e
  | .ok [form] => .ok ⟨form, ⟨name, text⟩⟩
  | .ok forms => .error ⟨.formCount forms.length, Span.whole text⟩

end Fragment

end Kiln
