import Kiln.Lowering.Fault
import Kiln.Program.Module
import Kiln.Tree.Printer
/-!
# Names

What the names of a unit mean. A name means the unit's own definition if there is
one, else that of the first dependency that has one, and a function may last come
from the base library. The words of the language itself can name nothing.
-/

namespace Kiln

/-- The forms of expressions, operators and calls apart. -/
inductive Form where
  | sequence
  | bind
  | assign
  | branch
  | loop
  | all
  | any
  | negation
  | sizeOf
  | zeroed
  | fieldPointer
  | fieldValue
  | make
  | load
  | store
  | cast
  | offset
  | address
  | sequenceOf
  | length
  | copySequence
  deriving DecidableEq, Repr

namespace Form

/-- The forms and the words they open with. -/
def words : List (String × Form) :=
  [("do", sequence), ("let", bind), ("set", assign), ("if", branch), ("while", loop),
    ("and", all), ("or", any), ("not", negation), ("sizeof", sizeOf), ("zeroed", zeroed),
    ("field", fieldPointer), (".", fieldValue), ("make", make), ("load", load),
    ("store", store), ("cast", cast), ("offset", offset), ("addr", address),
    ("seq", sequenceOf), ("len", length), ("seq_copy", copySequence)]

/-- The form a word opens. -/
def ofWord? (word : String) : Option Form := words.lookup word

end Form

/-- Words with a meaning outside of expressions. -/
def declarationWords : List String :=
  ["struct", "fun", "global", "template", "ptr", "true", "false"]

/-- Whether a name means something to the language itself. -/
def isReserved (name : String) : Bool :=
  (Form.ofWord? name).isSome || declarationWords.contains name
    || Ty.primitiveNames.contains name || (BinaryOp.ofSymbol? name).isSome

/-- The name a tree gives to something. -/
def declaredName (t : Tree) (what : Noun) : Except LoweringError String :=
  match t.symbol? with
  | none => refuse (.nameExpected what t.render) t.span
  | some name =>
    if isReserved name then refuse (.reserved name what) t.span
    else if name.toList.contains '$' then refuse (.unfilledHole name) t.span
    else .ok name

/-- The two items of a list. -/
def pairOf (t : Tree) (shape : String) : Except LoweringError (Tree × Tree) :=
  match t.items? with
  | some [first, second] => .ok (first, second)
  | _ => refuse (.wrongShape shape t.render) t.span

/-- A function's name, parameters and result. -/
structure Signature where
  name : String
  params : List Param
  result : Ty
  deriving Repr

/-- What the names of a unit can mean. -/
structure Names where
  /-- The number the module will have. -/
  home : ModuleId
  /-- The modules the unit is compiled against. -/
  deps : List Module
  /-- The layouts of structs that are laid out. -/
  layouts : Layouts
  /-- The structs the unit defines. -/
  structs : List String
  /-- The functions the unit defines. -/
  signatures : List Signature
  /-- The globals the unit defines. -/
  globals : List Global

namespace Names

/-- The type a name means. -/
def type? (names : Names) (name : String) : Option Ty :=
  match Ty.primitive? name with
  | some t => some t
  | none =>
    if names.structs.contains name then some (.struct ⟨names.home, name⟩)
    else names.deps.findSome? (·.structType? name)

/-- The type a tree spells. -/
def resolveType (names : Names) : Tree → Except LoweringError Ty
  | .leaf (.sym name) s =>
    match names.type? name with
    | some t => .ok t
    | none => refuse (.unknownType name) s
  | .leaf a s => refuse (.notAType (Tree.leaf a s).render false) s
  | .node [head, inner] s =>
    if head.symbol? = some "ptr" then (names.resolveType inner).map .ptr
    else if head.symbol? = some "seq" then (names.resolveType inner).map .seq
    else refuse (.notAType (Tree.node [head, inner] s).render true) s
  | .node items s => refuse (.notAType (Tree.node items s).render true) s

/-- The place and the type of a global of the unit. -/
def ownGlobal? (names : Names) (name : String) : Option (Nat × Ty) := do
  let i ← names.globals.findIdx? (·.name = name)
  let g ← names.globals[i]?
  return (i, g.type)

/-- The module, the place and the type of a global of a dependency. -/
def foreignGlobal? (names : Names) (name : String) : Option (ModuleId × Nat × Ty) :=
  names.deps.findSome? fun m => do
    let i ← m.globalIndex? name
    let g ← m.globals[i]?
    return (m.id, i, g.type)

/-- The target of calls by a name, with the parameters and the result it has. -/
def function? (names : Names) (name : String) : Option (Callee × List Param × Ty) :=
  match names.signatures.findIdx? (·.name = name) with
  | some i => do
    let f ← names.signatures[i]?
    return (.own i, f.params, f.result)
  | none => (names.deps ++ [Module.base]).findSome? fun m => do
    let i ← m.functionIndex? name
    let f ← m.functions[i]?
    return (.foreign m.id i, f.params, f.result)

end Names

end Kiln
