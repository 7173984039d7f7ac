import Kiln.Memory.Heap
import Kiln.Memory.Bytes
import Kiln.Program.Module
/-!
# Runs

The state that programs change, and the ways a run of one ends. A `Fault` is reported
to the caller, who may go on; a `Halt` is the end of everything.
-/

namespace Kiln

/-- Heap, globals and output. -/
structure Store where
  heap : Heap
  /-- The values of the globals of each module, by the module's number. -/
  globals : Array (List Value)
  /-- What was printed, in full. -/
  output : String

/-- Ways of ending that nobody can go on from. -/
inductive Halt where
  /-- The heap's limit leaves no room for a request. -/
  | exhausted (request : Exhaustion)
  /-- A loop went on for longer than anybody waits. -/
  | endless
  /-- Code named a slot, a global or a function that is not there. -/
  | stray
  /-- Bytes were asked of a buffer that does not have them. -/
  | overrun
  /-- More bytes were asked for than there can be. -/
  | oversized
  deriving DecidableEq, Repr

/-- Why a run ended without a value. -/
inductive Stop where
  | fault (fault : Fault)
  | halt (halt : Halt)
  deriving DecidableEq, Repr

/-- How a run ends that has run into a fault. Nobody can go on from the host's own ones. -/
def Fault.stop : Fault → Stop
  | overrun => .halt .overrun
  | oversized => .halt .oversized
  | f => .fault f

/-- Computations that change the store and may stop. -/
abbrev Run := EStateM Stop Store

namespace Run

/-- Stops with a fault. -/
def fail (f : Fault) : Run α := throw (.fault f)

/-- Stops for good. -/
def halt (h : Halt) : Run α := throw (.halt h)

/-- The value of a computation that may have a fault. -/
def lift : Except Fault α → Run α
  | .ok a => pure a
  | .error f => throw f.stop

/-- The value that is there, of one that always is. -/
def present : Option α → Run α
  | some a => pure a
  | none => halt .stray

/-- Changes the heap. -/
def updateHeap (change : Heap → Except Fault Heap) : Run Unit := do
  let s ← get
  let h ← lift (change s.heap)
  set { s with heap := h }

end Run

namespace Store

/-- A store without blocks and globals, in which nothing was printed. -/
def initial (limit : Nat) : Store :=
  { heap := .withLimit limit, globals := #[[]], output := "" }

/-- The value of a global. -/
def global? (s : Store) (home : ModuleId) (index : Nat) : Option Value := do
  let values ← s.globals[home.index]?
  values[index]?

/-- Gives a global its value. -/
def setGlobal (s : Store) (home : ModuleId) (index : Nat) (v : Value) : Store :=
  { s with globals := s.globals.modify home.index (·.set index v) }

/-- Prints a line. -/
def print (s : Store) (line : String) : Store := { s with output := s.output ++ line ++ "\n" }

end Store

end Kiln
