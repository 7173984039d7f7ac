import Kiln.Tree.Basic
import Kiln.Text.Quoted
/-!
# Printing

A tree is printed on one line, except that definitions and sequences are broken up:
in a list of more than two items that opens with `do`, `fun`, `struct` or `template`,
every item from the third on that is a list itself starts a line of its own, indented
by two more than the list.
-/

namespace Kiln

/-- The printed form of an atom. -/
def Atom.render : Atom → List Char
  | .int v => (toString v.toInt).toList
  | .bool v => (toString v).toList
  | .str s => Quoted.encode s.toList
  | .sym s => s.toList

namespace Tree

/-- Whether the items of a list go on lines of their own. -/
def isBlock (items : List Tree) : Bool :=
  match items with
  | t :: _ :: _ :: _ => ["do", "fun", "struct", "template"].any fun w => t.symbol? = some w
  | _ => false

/-- What stands before the item at `index`: nothing before the first, a line break
before a broken item, else a space. -/
def separator (block : Bool) (indent index : Nat) (t : Tree) : List Char :=
  if index = 0 then []
  else if block && 2 ≤ index && t.items?.isSome then '\n' :: List.replicate (indent + 2) ' '
  else [' ']

mutual

/-- The printed form of a tree whose list starts in column `indent`. -/
def renderAt (indent : Nat) : Tree → List Char
  | leaf a _ => Atom.render a
  | node items _ => '(' :: renderItems (isBlock items) indent 0 items ++ [')']

/-- The printed items of a list, from the one at `index` on. -/
def renderItems (block : Bool) (indent index : Nat) : List Tree → List Char
  | [] => []
  | t :: ts =>
    separator block indent index t ++ renderAt (indent + 2) t
      ++ renderItems block indent (index + 1) ts

end

/-- The printed form of a tree. -/
def render (t : Tree) : String := String.ofList (t.renderAt 0)

end Tree

instance : ToString Tree := ⟨Tree.render⟩

end Kiln
