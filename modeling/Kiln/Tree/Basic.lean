import Kiln.Text.Span
/-!
# Syntax trees

What the reader makes of a text: atoms and lists, each with the span it was read
from. Two trees are `alike` when they differ in spans alone; that is the equality
the language itself knows. `Tree.fold` is the recursion whatever is made of a tree
is written with, and `Tree.inductItems` the induction that goes with it.
-/

namespace Kiln

/-- What a tree has at its leaves. -/
inductive Atom where
  /-- An integer of 64 bits. -/
  | int (value : Int64)
  /-- One of the words `true` and `false`. -/
  | bool (value : Bool)
  /-- A text between quotes, by what it stands for. -/
  | str (text : String)
  /-- Any other word. -/
  | sym (name : String)
  deriving DecidableEq, Repr, Inhabited

/-- An atom or a list of trees, with its place in the text. -/
inductive Tree where
  | leaf (atom : Atom) (span : Span)
  | node (items : List Tree) (span : Span)
  deriving Repr, Inhabited

namespace Tree

/-- Where the tree was read. -/
def span : Tree → Span
  | leaf _ s => s
  | node _ s => s

/-- The name, of a tree that is a symbol. -/
def symbol? : Tree → Option String
  | leaf (.sym name) _ => some name
  | _ => none

/-- The items, of a tree that is a list. -/
def items? : Tree → Option (List Tree)
  | node items _ => some items
  | _ => none

/-- The symbol a list opens with. -/
def head? : Tree → Option String
  | node (t :: _) _ => t.symbol?
  | _ => none

/-- The items after the head, of a list that opens with the symbol `name`. -/
def form? (name : String) : Tree → Option (List Tree)
  | node (t :: rest) _ => if t.symbol? = some name then some rest else none
  | _ => none

mutual

/-- The same tree with every span replaced. -/
def respan (s : Span) : Tree → Tree
  | leaf a _ => leaf a s
  | node items _ => node (respanAll s items) s

/-- The same trees with every span replaced. -/
def respanAll (s : Span) : List Tree → List Tree
  | [] => []
  | t :: ts => t.respan s :: respanAll s ts

end

mutual

/-- Equality of trees, spans apart. -/
def alike : Tree → Tree → Bool
  | leaf a _, leaf b _ => a = b
  | node xs _, node ys _ => alikeAll xs ys
  | _, _ => false

/-- Equality of lists of trees, spans apart. -/
def alikeAll : List Tree → List Tree → Bool
  | [], [] => true
  | x :: xs, y :: ys => alike x y && alikeAll xs ys
  | _, _ => false

end

mutual

/-- The symbols of a tree with their places, from left to right. -/
def symbols : Tree → List (String × Span)
  | leaf (.sym name) s => [(name, s)]
  | leaf _ _ => []
  | node items _ => symbolsAll items

/-- The symbols of several trees, from left to right. -/
def symbolsAll : List Tree → List (String × Span)
  | [] => []
  | t :: ts => t.symbols ++ symbolsAll ts

end

section Fold

variable {α : Type u} (onLeaf : Atom → Span → α) (onNode : List (Tree × α) → Span → α)

mutual

/-- Compositional evaluation: the result for a list is made of its items, each paired
with its own result. -/
def fold : Tree → α
  | leaf a s => onLeaf a s
  | node items s => onNode (foldAll items) s

/-- Each tree of a list, paired with its result. -/
def foldAll : List Tree → List (Tree × α)
  | [] => []
  | t :: ts => (t, fold t) :: foldAll ts

end

@[simp] theorem foldAll_eq_map (ts : List Tree) :
    foldAll onLeaf onNode ts = ts.map fun t => (t, fold onLeaf onNode t) := by
  induction ts with
  | nil => rfl
  | cons t ts ih => simp [foldAll, ih]

end Fold

/-- To show a fact of every tree, show it of leaves, and of a list given that it holds
of each item. -/
theorem inductItems {P : Tree → Prop} (leaf : ∀ a s, P (leaf a s))
    (node : ∀ items s, (∀ t ∈ items, P t) → P (node items s)) : ∀ t, P t
  | .leaf a s => leaf a s
  | .node items s => node items s fun t _ => inductItems leaf node t

@[simp] theorem respanAll_eq_map (s : Span) (ts : List Tree) :
    respanAll s ts = ts.map (respan s) := by
  induction ts with
  | nil => rfl
  | cons t ts ih => simp [respanAll, ih]

@[simp] theorem span_respan (s : Span) (t : Tree) : (t.respan s).span = s := by
  cases t <;> rfl

end Tree

/-- The text that spans point into. -/
structure Origin where
  /-- What the text is called in diagnostics. -/
  name : String
  /-- The text itself. -/
  text : String
  deriving DecidableEq, Repr, Inhabited

/-- A tree together with the text it was read from. -/
structure Fragment where
  /-- The tree. -/
  root : Tree
  /-- The text its spans point into. -/
  origin : Origin
  deriving Repr, Inhabited

end Kiln
