import Kiln.Workspace.Compile
/-!
# Loading and unloading

A module that is loaded from a file is compiled and enters the graph; one that fails
leaves the graph alone and is reported. A module is unloaded together with everything
that depends on it, and containers among those can be declared anew.
-/

namespace Kiln

namespace Work

/-- Reports a file that did not compile. -/
def reportCompile (path : String) (e : CompileError) : Work Unit := do
  let p := e.position
  record .error
    ("failed to compile " ++ path ++ " (" ++ toString p.line ++ ":" ++ toString p.column ++ "): "
      ++ e.message)
  notice (.report e.report)

/-- Loads the file at a path as a module of some name. -/
def loadNamed (name path : String) (deps : List Module) : Work (Option Module) := do
  match ← (readFile path).run with
  | .error e =>
    record .error ("failed to read " ++ path ++ ": " ++ e.message)
    return none
  | .ok text =>
    match ← (compile (.text name path text) deps).run with
    | .error e =>
      reportCompile path e
      return none
    | .ok m =>
      record .info
        ("loaded module `" ++ m.name ++ "` (" ++ m.id.render ++ ") from " ++ path)
      adopt m
      return some m

/-- Loads the file at a path as a module that goes by the file's name. -/
def load (path : String) (deps : List Module) : Work (Option Module) :=
  loadNamed (Path.moduleName path) path deps

/-- Unloads a module and all that depend on it, and says which went. -/
def unload (m : Module) : Work (List ModuleId) := do
  let w ← get
  let (removed, graph) := w.graph.removeWithDependents m.id
  let gone := removed.map (·.id)
  set { w with graph, registry := w.registry.forget gone }
  record .info
    ("unloaded module `" ++ m.name ++ "` (" ++ m.id.render ++ ") and "
      ++ toString (gone.length - 1) ++ " dependents")
  return gone

end Work

end Kiln
