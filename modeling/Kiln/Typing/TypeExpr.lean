import Kiln.Tree.Reader
import Kiln.Tree.Printer
/-!
# Type expressions

A type is spelled by a symbol, or by `(ptr T)` or `(seq T)` around a type. A
`TypeExpr` is a fragment that spells a type; which type it is, only a module can say.
-/

namespace Kiln

/-- Refuses trees that do not spell a type, at the innermost place that is wrong. -/
def checkType : Tree → Except SyntaxError Unit
  | .leaf (.sym name) s =>
    if isSymbol name && !name.toList.contains '$' then .ok ()
    else .error ⟨.notAType (Tree.leaf (.sym name) s).render false, s⟩
  | .leaf a s => .error ⟨.notAType (Tree.leaf a s).render false, s⟩
  | .node [head, inner] s =>
    if head.symbol? = some "ptr" || head.symbol? = some "seq" then checkType inner
    else .error ⟨.notAType (Tree.node [head, inner] s).render true, s⟩
  | .node items s => .error ⟨.notAType (Tree.node items s).render true, s⟩

/-- A fragment that spells a type. -/
structure TypeExpr where
  /-- The tree and its text. -/
  fragment : Fragment
  /-- The tree spells a type. -/
  spells : checkType fragment.root = .ok ()

namespace TypeExpr

/-- The type expression of a fragment. -/
def ofFragment (f : Fragment) : Except SyntaxError TypeExpr :=
  match h : checkType f.root with
  | .ok () => .ok ⟨f, h⟩
  | .error e => .error e

/-- Reads a type expression. -/
def read (text : String) : Except SyntaxError TypeExpr :=
  match Fragment.readExpr "<type>" text with
  | .ok f => ofFragment f
  | .error e => .error e

/-- The tree. -/
def tree (t : TypeExpr) : Tree := t.fragment.root

/-- The printed form. -/
def render (t : TypeExpr) : String := t.tree.render

mutual

/-- The symbols of a tree, joined by underscores. -/
def mangleTree : Tree → String
  | .leaf (.sym name) _ => name
  | .leaf _ _ => ""
  | .node items _ => "_".intercalate (mangleAll items)

/-- The mangled form of each tree of a list. -/
def mangleAll : List Tree → List String
  | [] => []
  | t :: ts => mangleTree t :: mangleAll ts

end

/-- A spelling that can be part of a name. -/
def mangled (t : TypeExpr) : String := mangleTree t.tree

/-- Name of the array type that has elements of this type. -/
def arrayName (t : TypeExpr) : String := "array_" ++ t.mangled

end TypeExpr

end Kiln
