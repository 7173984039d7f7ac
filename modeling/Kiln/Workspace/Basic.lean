import Kiln.Container.Registry
import Kiln.Diagnostics.Report
import Kiln.Machine.Eval
import Kiln.Project.Files
import Kiln.Project.Graph
/-!
# The workspace

Everything that compiling, loading and running share: the modules compiled so far, the
store of the machine, the containers, the graph of loaded modules, the files, and what
was told. `Work` is a computation on it. A `Halt` ends all work; every other failure is
a value, and what was done before it stays done.
-/

namespace Kiln

/-- The state of all work. -/
structure Workspace where
  library : Library
  store : Store
  registry : Registry
  graph : ModuleGraph
  files : Files
  journal : Journal

/-- A workspace in which nothing was compiled. -/
def Workspace.initial (heapLimit : Nat) (files : Files) : Workspace where
  library := .initial
  store := .initial heapLimit
  registry := .empty
  graph := .empty
  files := files
  journal := .empty

/-- Computations on the workspace. -/
abbrev Work := EStateM Halt Workspace

namespace Work

/-- Runs something on the machine. -/
def perform (run : Run α) : ExceptT Fault Work α := ExceptT.mk fun w =>
  match run w.store with
  | .ok a store => .ok (.ok a) { w with store }
  | .error (.fault f) store => .ok (.error f) { w with store }
  | .error (.halt h) store => .error h { w with store }

/-- Calls a function. -/
def call (handle : FunctionHandle) (args : List Value) : ExceptT Fault Work Value := do
  let w ← getThe Workspace
  perform (Kiln.call w.library handle args)

/-- Writes a record. -/
def record (level : Level) (message : String) : Work Unit :=
  modify fun w => { w with journal := w.journal.record level message }

/-- Writes a notice. -/
def notice (n : Notice) : Work Unit :=
  modify fun w => { w with journal := w.journal.notice n }

/-- Writes a line among the errors. -/
def complain (line : String) : Work Unit := notice (.line line)

/-- Prints a line. -/
def print (line : String) : Work Unit :=
  modify fun w => { w with store := w.store.print line }

/-- The text of a file. -/
def readFile (path : String) : ExceptT FileError Work String := do
  let w ← getThe Workspace
  MonadExcept.ofExcept (w.files.read path)

/-- Adds a module that was not loaded from a file to the graph. -/
def adopt (m : Module) : Work Unit := modify fun w => { w with graph := w.graph.insert m }

end Work

/-- The value of a global of a module. -/
def Workspace.global? (w : Workspace) (m : Module) (name : String) : Option Value := do
  let i ← m.globalIndex? name
  w.store.global? m.id i

end Kiln
