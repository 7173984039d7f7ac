import Kiln.Lowering.Unit
import Kiln.Tree.Reader
import Kiln.Workspace.Basic
/-!
# Compiling

A unit is read, lowered against the modules it depends on, and then its globals are
given their first values in order. A unit that cannot be read or lowered leaves
everything as it was; one whose globals fail has taken a number and has done what their
initialisers did until then. On a unit with a struct that has more bytes than can be
counted, the host gives up.
-/

namespace Kiln

/-- What is compiled. -/
inductive SourceUnit where
  /-- A text, which diagnostics call `origin`. -/
  | text (name origin text : String)
  /-- A fragment that was built already. -/
  | fragment (name : String) (fragment : Fragment)

namespace SourceUnit

/-- The name the module gets. -/
def name : SourceUnit → String
  | text name _ _ => name
  | fragment name _ => name

end SourceUnit

/-- Why a unit did not compile. -/
inductive CompileFault where
  | reading (fault : SyntaxFault)
  | lowering (fault : LoweringFault)
  /-- The initialiser of a global ran into a fault. -/
  | initialiser (global : String) (fault : Fault)
  deriving DecidableEq, Repr

namespace CompileFault

/-- The wording of each cause. -/
def message : CompileFault → String
  | reading f => f.message
  | lowering f => f.message
  | initialiser global f => "initialiser of global `" ++ global ++ "` failed: " ++ f.message

/-- Advice that goes with some of the causes. -/
def help? : CompileFault → Option String
  | reading f => f.help?
  | lowering f => f.help?
  | initialiser _ _ => none

/-- How the host ends if the cause is its own fault. -/
def halt? : CompileFault → Option Halt
  | lowering (.oversized _) => some .oversized
  | _ => none

end CompileFault

/-- A cause and its place in the text of a unit. -/
structure CompileError where
  /-- The name of the unit. -/
  unit : String
  fault : CompileFault
  /-- The text the place is in. -/
  origin : Origin
  span : Span
  deriving Repr

namespace CompileError

/-- The wording of the cause. -/
def message (e : CompileError) : String := e.fault.message

/-- The advice, if there is any. -/
def help? (e : CompileError) : Option String := e.fault.help?

/-- Line and column of the place. -/
def position (e : CompileError) : Position := e.span.position e.origin.text

/-- The error for a reader. -/
def report (e : CompileError) : Report where
  code := some "cauldron::compile"
  message := e.message
  help := e.help?
  place := some ⟨e.origin.name, e.span.start, e.span.length⟩

end CompileError

/-- The tree of a unit, with its text. -/
def SourceUnit.read : SourceUnit → Except CompileError Fragment
  | text name origin contents =>
    (Fragment.readUnit origin contents).mapError fun e =>
      ⟨name, .reading e.fault, ⟨origin, contents⟩, e.span⟩
  | fragment _ f => .ok f

/-- A unit read and lowered, and the text it came from. -/
def SourceUnit.lower (lib : Library) (unit : SourceUnit) (deps : List Module) :
    Except CompileError (LoweredUnit × Origin) := do
  let f ← unit.read
  let lowered ← (lowerUnit lib unit.name deps f.root).mapError fun e =>
    (⟨unit.name, .lowering e.fault, f.origin, e.span⟩ : CompileError)
  return (lowered, f.origin)

namespace Work

/-- Makes room for a module, with nothing in its globals yet. -/
def install (m : Module) : Work Unit :=
  modify fun w =>
    { w with
      library := w.library.push m
      store := { w.store with globals := w.store.globals.push (m.globals.map fun _ => .unit) } }

/-- Gives a global its first value. -/
def initialise (m : Module) (index : Nat) (init : Initialiser) : ExceptT Fault Work Unit := do
  let w ← getThe Workspace
  let v ← perform (evaluate w.library m.id init.slots init.code)
  modifyThe Workspace fun w => { w with store := w.store.setGlobal m.id index v }

/-- Gives the globals from `index` on their first values, up to the first that fails. -/
def initialiseFrom (m : Module) (origin : Origin) :
    Nat → List Initialiser → ExceptT CompileError Work Unit
  | _, [] => pure ()
  | index, init :: inits => do
    match ← (initialise m index init).run with
    | .ok () => initialiseFrom m origin (index + 1) inits
    | .error f =>
      let global := ((m.globals[index]?).map (·.name)).getD ""
      throw ⟨m.name, .initialiser global f, origin, init.span⟩

/-- Refuses a unit, or ends everything if the cause is the host's own fault. -/
def giveUp (e : CompileError) : ExceptT CompileError Work α :=
  match e.fault.halt? with
  | some h => throwThe Halt h
  | none => throw e

/-- Compiles a unit against the modules it depends on. -/
def compile (unit : SourceUnit) (deps : List Module) : ExceptT CompileError Work Module := do
  let w ← getThe Workspace
  match unit.lower w.library deps with
  | .error e => giveUp e
  | .ok (lowered, origin) =>
    install lowered.module
    initialiseFrom lowered.module origin 0 lowered.initialisers
    return lowered.module

end Work

end Kiln
