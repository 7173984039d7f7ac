import Kiln.Container.Declare
import Kiln.Project.Manifest
import Kiln.Workspace.Load
/-!
# Sessions

A session is a workspace in which everything is loaded that the hot module of a project
is compiled against: its arrays first, then its library modules in their order. Whatever
of it fails ends the preparation.
-/

namespace Kiln

/-- What a hot module starts from. -/
structure Session where
  /-- The modules it is compiled against, in the order names are looked up in them. -/
  deps : List Module
  hot : HotSettings

/-- Why a session could not be prepared. -/
inductive SessionError where
  | container (error : ContainerError)
  /-- A library module did not load. -/
  | module (name path : String)
  /-- A library module depends on what is not loaded. -/
  | missing (name dep : String)

namespace SessionError

/-- The wording of each cause. -/
def message : SessionError → String
  | container e => e.message
  | module name path => "module `" ++ name ++ "` from " ++ path ++ " failed to compile"
  | missing name dep => "module `" ++ name ++ "` depends on `" ++ dep ++ "`, which is not loaded"

end SessionError

namespace Session

/-- The session of a project without a manifest. -/
def standalone : Session := ⟨[], .standard⟩

/-- Modules by the name that dependencies call them. -/
abbrev Named := List (String × List Module)

/-- Declares the arrays, and names each by its operations and its wrapper. -/
def prepareArrays : List TypeExpr → ExceptT SessionError Work Named
  | [] => return []
  | elem :: elems => do
    let (operations, wrapper) ←
      ExceptT.adapt SessionError.container (Work.declareArray elem)
    Work.adopt wrapper
    Work.adopt operations
    return (elem.arrayName, [operations, wrapper]) :: (← prepareArrays elems)

/-- The modules that the dependencies of an entry name. -/
def resolve (named : Named) (entry : ModuleEntry) : Except SessionError (List Module) := do
  let found ← entry.deps.mapM fun dep =>
    match named.lookup dep with
    | some modules => .ok modules
    | none => .error (.missing entry.name dep)
  return found.flatten

/-- Loads the library modules in their order. -/
def prepareModules (named : Named) : List ModuleEntry → ExceptT SessionError Work (List Module)
  | [] => return []
  | entry :: entries => do
    let deps ← MonadExcept.ofExcept (resolve named entry)
    let some m ← Work.loadNamed entry.name entry.path deps
      | throw (.module entry.name entry.path)
    return m :: (← prepareModules (named ++ [(entry.name, [m])]) entries)

/-- Prepares the session of a manifest. -/
def prepare (manifest : Manifest) : ExceptT SessionError Work Session := do
  let arrays ← prepareArrays manifest.arrays
  let modules ← prepareModules arrays manifest.modules
  let deps := modules ++ arrays.flatMap (·.2)
  let w ← getThe Workspace
  Work.record .info
    ("session ready: " ++ toString deps.length ++ " dependencies, "
      ++ toString w.graph.modules.length ++ " modules loaded")
  return ⟨deps, manifest.hot⟩

end Session

end Kiln
