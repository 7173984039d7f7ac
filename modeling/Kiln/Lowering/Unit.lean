import Kiln.Lowering.Expression
import Kiln.Lowering.Structs
/-!
# Units

A unit is a sequence of definitions, which may be grouped under `do` as one likes.
Its structs, the signatures of its functions and its globals are settled first, so
that bodies may refer to all of them whatever their order; bodies come last, and after
them the initialisers of the globals.
-/

namespace Kiln

mutual

/-- The definitions of a unit, groups taken apart. -/
def definitions : Tree → List Tree
  | .node (head :: rest) s =>
    if head.symbol? = some "do" then definitionsAll rest else [.node (head :: rest) s]
  | t => [t]

/-- The definitions of several trees. -/
def definitionsAll : List Tree → List Tree
  | [] => []
  | t :: ts => definitions t ++ definitionsAll ts

end

/-- The definitions of a unit, sorted by what they define. -/
structure Outline where
  structs : List StructForm
  functions : List Tree
  globals : List Tree

namespace Outline

/-- Adds a definition. The name of a struct is settled at once. -/
def add (o : Outline) (t : Tree) : Except LoweringError Outline :=
  match t.form? "struct", t.head? with
  | some [], _ => refuse (.malformed "struct" "(struct Name (field Type) ...)") t.span
  | some (nameTree :: fields), _ => do
    let name ← declaredName nameTree .struct
    if o.structs.any (·.name == name) then refuse (.definedTwice .struct name) nameTree.span
    else return { o with structs := o.structs ++ [⟨name, fields, t.span⟩] }
  | none, some "fun" => .ok { o with functions := o.functions ++ [t] }
  | none, some "global" => .ok { o with globals := o.globals ++ [t] }
  | none, _ => refuse .definitionExpected t.span

/-- The outline of a unit. -/
def ofUnit (root : Tree) : Except LoweringError Outline :=
  (definitions root).foldlM add ⟨[], [], []⟩

end Outline

/-- A function before its body is lowered. -/
structure FunctionForm where
  signature : Signature
  body : List Tree
  span : Span

/-- A global before its initialiser is lowered. -/
structure GlobalForm where
  global : Global
  init : Tree

namespace Names

variable (names : Names)

/-- Adds a parameter to those before it. -/
def param (before : List Param) (t : Tree) : Except LoweringError (List Param) := do
  let (nameTree, typeTree) ← pairOf t "(param Type)"
  let name ← declaredName nameTree .parameter
  if before.any (·.1 == name) then refuse (.declaredTwice .parameter name) t.span
  else return before ++ [(name, ← names.resolveType typeTree)]

/-- Adds a function to those before it. -/
def function (before : List FunctionForm) (t : Tree) :
    Except LoweringError (List FunctionForm) := do
  let some (nameTree :: paramsTree :: resultTree :: body) := t.form? "fun"
    | refuse (.malformed "fun" "(fun name ((param Type) ...) Ret body ...)") t.span
  let name ← declaredName nameTree .function
  if before.any (·.signature.name == name) then
    refuse (.definedTwice .function name) nameTree.span
  else
    let some paramTrees := paramsTree.items? | refuse .parameterListExpected paramsTree.span
    let params ← paramTrees.foldlM names.param []
    let result ← names.resolveType resultTree
    return before ++ [⟨⟨name, params, result⟩, body, t.span⟩]

/-- Adds a global to those before it. -/
def global (before : List GlobalForm) (t : Tree) : Except LoweringError (List GlobalForm) := do
  let some [nameTree, typeTree, init] := t.form? "global"
    | refuse (.malformed "global" "(global name Type init)") t.span
  let name ← declaredName nameTree .global
  if before.any (·.global.name == name) then refuse (.definedTwice .global name) nameTree.span
  else return before ++ [⟨⟨name, ← names.resolveType typeTree⟩, init⟩]

/-- Lowers the body of a function. What a function that returns nothing comes to is
dropped. -/
def lowerFunction (f : FunctionForm) : Except LoweringError Function := do
  let sig := f.signature
  let frame := sig.params.foldl (fun ls p => ls.declare p.1 p.2) Locals.empty
  let ((code, type), ls) ← (Lowering.sequence (f.body.map (Lowering.operand names))).run frame
  let code ←
    if sig.result = .unit then
      pure (if type = .unit then code else .block [code, .const .unit])
    else if isAssignable sig.result type then pure code
    else
      let s := (f.body.getLast?.map Tree.span).getD f.span
      refuse (.wrongResult sig.name sig.result type) s
  return ⟨sig.name, sig.params, sig.result, .code ls.slots code⟩

end Names

/-- The code that gives a global its first value. -/
structure Initialiser where
  slots : Nat
  code : Code
  span : Span
  deriving Repr

/-- Lowers the initialiser of a global. -/
def Names.lowerGlobal (names : Names) (g : GlobalForm) : Except LoweringError Initialiser := do
  let ((code, type), ls) ← (Lowering.ofTree names g.init).run Locals.empty
  if isAssignable g.global.type type then return ⟨ls.slots, code, g.init.span⟩
  else refuse (.wrongInitialiser g.global.name g.global.type type) g.init.span

/-- What a unit comes to: a module, and the code that gives its globals their first
values, in their order. -/
structure LoweredUnit where
  module : Module
  initialisers : List Initialiser

/-- Lowers a unit against its dependencies. -/
def lowerUnit (lib : Library) (name : String) (deps : List Module) (root : Tree) :
    Except LoweringError LoweredUnit := do
  let outline ← Outline.ofUnit root
  let names : Names :=
    { home := lib.nextId, deps, layouts := lib.layouts
      structs := outline.structs.map (·.name), signatures := [], globals := [] }
  let structs ← layOutAll names outline.structs
  let names := names.withStructs structs
  let functionForms ← outline.functions.foldlM names.function []
  let globalForms ← outline.globals.foldlM names.global []
  let names : Names :=
    { names with
      signatures := functionForms.map (·.signature)
      globals := globalForms.map (·.global) }
  let functions ← functionForms.mapM names.lowerFunction
  let initialisers ← globalForms.mapM names.lowerGlobal
  return {
    module :=
      { id := names.home, name, deps := deps.map (·.id), functions, structs
        globals := names.globals }
    initialisers }

end Kiln
