import Kiln.Container.Blueprint
import Kiln.Template.Instance
import Kiln.Workspace.Compile
/-!
# Declaring containers

To declare a container is to instantiate its templates, compile the result and enter it
in the registry. A name is declared once; whatever fails leaves the registry as it was.
-/

namespace Kiln

/-- Why a container could not be declared. -/
inductive ContainerError where
  /-- The templates do not take the names or types given. -/
  | binding (error : BindingError)
  /-- What was generated does not compile. -/
  | compile (error : CompileError)
  /-- There is a container of this name already. -/
  | duplicate (name : String)
  /-- What was given is no struct and no type. -/
  | invalid (name message : String)

namespace ContainerError

/-- The wording of each cause. -/
def message : ContainerError → String
  | binding e => e.message
  | compile e => e.message
  | duplicate name => "`" ++ name ++ "` is already defined in this session"
  | invalid name message => "invalid fragment for `" ++ name ++ "`: " ++ message

/-- The error for a reader. -/
def report : ContainerError → Report
  | compile e => e.report
  | e => ⟨none, e.message, none, none⟩

end ContainerError

namespace Container

/-- A template of this library, with its holes filled. -/
def instantiate (name text : String) (bindings : Bindings) :
    Except ContainerError Fragment := do
  let template ← (Template.read name text).mapError fun e => .invalid name e.message
  (template.instantiate bindings).mapError .binding

/-- A form that defines nothing. -/
def nothing : Fragment :=
  ⟨.node [.leaf (.sym "do") ⟨1, 3⟩] ⟨0, 4⟩, ⟨"<empty>", "(do)"⟩⟩

/-- What a wrapper around `inner` has to define first, and the tree that names its payload.
A struct is defined and named; anything else has to be a type itself. -/
def payload (name : String) (inner : Fragment) : Except ContainerError (Fragment × Fragment) :=
  match inner.root.form? "struct" with
  | none => .ok (nothing, inner)
  | some args =>
    match args.head?.bind Tree.symbol? with
    | some struct => .ok (inner, ⟨.leaf (.sym struct) inner.root.span, inner.origin⟩)
    | none => .error (.invalid name "struct declaration has no name")

/-- The unit of a wrapper, and the type of its payload. -/
def wrapperUnit (name : String) (inner : Fragment) :
    Except ContainerError (SourceUnit × TypeExpr) := do
  let (definition, named) ← payload name inner
  let type ← (TypeExpr.ofFragment named).mapError fun e => .invalid name e.message
  let body ← instantiate "rc" Blueprint.wrapper
    (.ofList [("w", .ident name), ("T", .type type), ("inner", .fragment definition)])
  return (.fragment name body, type)

/-- The payload and the operations of an array. -/
def arrayParts (name : String) (elem : TypeExpr) :
    Except ContainerError (Fragment × Fragment) := do
  let bindings := .ofList [("a", .ident name), ("T", .type elem)]
  let header ← instantiate "array_header" Blueprint.header bindings
  let operations ← instantiate "array" Blueprint.operations bindings
  return (header, operations)

end Container

namespace Work

/-- Compiles a unit that was generated. -/
def compileGenerated (unit : SourceUnit) (deps : List Module) :
    ExceptT ContainerError Work Module := ExceptT.mk do
  return (← (compile unit deps).run).mapError .compile

/-- Changes the registry. -/
def updateRegistry (change : Registry → Registry) : Work Unit :=
  modify fun w => { w with registry := change w.registry }

/-- Declares the wrapper `name` around a struct or a type. -/
def declareWrapper (name : String) (inner : Fragment) : ExceptT ContainerError Work Module := do
  if (← getThe Workspace).registry.wrappers.contains name then throw (.duplicate name)
  let (unit, type) ← MonadExcept.ofExcept (Container.wrapperUnit name inner)
  let m ← compileGenerated unit []
  record .info ("synthesized rc wrapper `" ++ name ++ "` over " ++ type.render)
  updateRegistry fun r => { r with wrappers := r.wrappers.insert name m.id }
  return m

/-- Declares the array of a type of elements. The module of its operations comes back
first, that of its wrapper second. -/
def declareArray (elem : TypeExpr) : ExceptT ContainerError Work (Module × Module) := do
  let name := elem.arrayName
  if (← getThe Workspace).registry.arrays.contains name then throw (.duplicate name)
  let (header, operations) ← MonadExcept.ofExcept (Container.arrayParts name elem)
  let wrapper ← declareWrapper name header
  let unit := SourceUnit.fragment (name ++ "_ops") operations
  let m ← tryCatch (compileGenerated unit [wrapper]) fun e => do
    updateRegistry fun r => { r with wrappers := r.wrappers.erase name }
    throw e
  record .info ("synthesized array type `" ++ name ++ "`")
  updateRegistry fun r => { r with arrays := r.arrays.insert name m.id }
  return (m, wrapper)

end Work

end Kiln
