import Kiln.Workspace.Basic
/-!
# Entry points

A function without parameters that is called by its name, in whatever module is bound at
the time. While none is bound, a call does nothing.
-/

namespace Kiln

/-- A name, and the function it means at present. -/
structure EntryPoint where
  name : String
  handle : Option FunctionHandle
  deriving Repr

namespace EntryPoint

/-- An entry point that is not bound. -/
def named (name : String) : EntryPoint := ⟨name, none⟩

/-- Whether a call does anything. -/
def isBound (e : EntryPoint) : Bool := e.handle.isSome

/-- Binds the function of the name in a module, if it takes no arguments. -/
def bind (e : EntryPoint) (m : Module) : Work EntryPoint := do
  match m.functions.find? (·.name = e.name) with
  | none =>
    Work.record .info ("`" ++ m.name ++ "` has no `" ++ e.name ++ "`; using a no-op")
    return named e.name
  | some f =>
    if f.params.isEmpty then return ⟨e.name, m.handle? e.name⟩
    else
      Work.record .warning
        ("`" ++ e.name ++ "` in `" ++ m.name ++ "` takes " ++ toString f.params.length
          ++ " arguments; entry points take none")
      return named e.name

/-- The entry point, not bound any more. -/
def unbind (e : EntryPoint) : EntryPoint := named e.name

/-- Calls the function that is bound. -/
def call (e : EntryPoint) : ExceptT Fault Work Unit :=
  match e.handle with
  | none => pure ()
  | some handle => discard (Work.call handle [])

end EntryPoint

end Kiln
