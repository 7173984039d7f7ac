import Kiln.Reload.EntryPoint
import Kiln.Workspace.Load
/-!
# The reload loop

One module is kept hot: whenever its file was changed it is compiled afresh, and if that
succeeds the old version is told to end, unloaded and replaced. A version that does not
compile changes nothing. In every frame the `update` of the current version is called; one
that fails is not called again before the next version.
-/

namespace Kiln

/-- Where the hot module stands. -/
inductive SlotState where
  /-- There is no version. -/
  | unloaded
  /-- A version is being compiled. -/
  | compiling
  /-- There is a version. -/
  | loaded
  /-- There is a version, and a change that came after it. -/
  | stale
  deriving DecidableEq, Repr, Inhabited

/-- The loop's own state, beside the workspace. -/
structure Reloader where
  /-- What every version is compiled against. -/
  deps : List Module
  path : String
  /-- The notifications of changes that were not looked at yet. -/
  pending : List String
  current : Option Module
  state : SlotState
  update : EntryPoint
  terminate : EntryPoint
  /-- How many versions were installed after the first attempt. -/
  reloads : Nat

/-- Steps of the loop. -/
abbrev Reload := StateT Reloader Work

namespace Reload

/-- Calls an entry point. -/
def callEntry (e : EntryPoint) : Reload (Except Fault Unit) := liftM (e.call.run : Work _)

/-- Makes a module the current version. -/
def install (m : Module) : Reload Unit := do
  let r ← get
  let update ← r.update.bind m
  let terminate ← r.terminate.bind m
  set { r with update, terminate, current := some m, state := .loaded }

/-- Leaves both entry points unbound. -/
def unbind : Reload Unit :=
  modify fun r => { r with update := r.update.unbind, terminate := r.terminate.unbind }

/-- The first attempt at a version. -/
def start : Reload Unit := do
  let r ← get
  set { r with state := .compiling }
  match ← Work.load r.path r.deps with
  | some m => install m
  | none =>
    Work.record .warning
      ("initial compile of " ++ r.path ++ " failed; update is a no-op until it is fixed")
    modify fun r => { r with state := .unloaded }

/-- Takes all notifications there are, and says whether there were any. -/
def pollChanges : Reload Bool := do
  let r ← get
  let changed := !r.pending.isEmpty
  let state := if changed && r.current.isSome then .stale else r.state
  set { r with pending := [], state }
  return changed

/-- Ends the version there is, if there is one. -/
def retire : Reload Unit := do
  let r ← get
  match r.current with
  | none => pure ()
  | some old =>
    match ← callEntry r.terminate with
    | .ok () => pure ()
    | .error f =>
      Work.record .error ("`terminate` of `" ++ old.name ++ "` failed: " ++ f.message)
    unbind
    discard (Work.unload old)
    modify fun r => { r with current := none, state := .unloaded }

/-- Compiles the file afresh and puts the result in place of the current version. Says
whether that was done. -/
def reload : Reload Bool := do
  let r ← get
  set { r with state := .compiling }
  match ← Work.load r.path r.deps with
  | none =>
    Work.record .warning ("keeping the previous version of " ++ r.path)
    set { r with state := if r.current.isSome then .loaded else .unloaded }
    return false
  | some fresh =>
    retire
    install fresh
    let count := r.reloads + 1
    modify fun r => { r with reloads := count }
    Work.record .info ("reloaded " ++ r.path ++ " (reload #" ++ toString count ++ ")")
    return true

/-- One frame: changes are picked up, and `update` is called. -/
def runFrame : Reload Unit := do
  if ← pollChanges then discard reload
  match ← callEntry (← get).update with
  | .ok () => pure ()
  | .error f =>
    Work.record .error
      ("`update` failed: " ++ f.message ++ "; disabled until the next reload")
    modify fun r => { r with update := r.update.unbind }

/-- Some frames. -/
def runFrames : Nat → Reload Unit
  | 0 => pure ()
  | n + 1 => do
    runFrame
    runFrames n

/-- A frame more is counted as one more, while there are fewer than asked for. -/
theorem toNat_count {frames done : UInt64} (h : done < frames) :
    (done + 1).toNat = done.toNat + 1 := by
  rw [UInt64.toNat_add]
  exact Nat.mod_eq_of_lt (Nat.lt_of_le_of_lt (UInt64.lt_iff_toNat_lt.1 h) frames.toNat_lt)

/-- Frames up to a number of them, of which so many were run before. They are counted behind each
frame, so that one is run in any case. -/
def loopFrom (frames done : UInt64) : Reload Unit := do
  runFrame
  if frames ≤ done + 1 then pure () else loopFrom frames (done + 1)
termination_by frames.toNat - (done + 1).toNat
decreasing_by
  rename_i hmore
  have hlt := UInt64.not_le.1 hmore
  rw [toNat_count hlt]
  exact Nat.sub_succ_lt_self _ _ (UInt64.lt_iff_toNat_lt.1 hlt)

/-- Frames up to a number of them, but one at least. -/
def loop (frames : UInt64) : Reload Unit := loopFrom frames 0

/-- **From a count below the number of frames on, the loop runs those that are left.** -/
theorem loopFrom_eq {frames done : UInt64} (h : done < frames) :
    loopFrom frames done = runFrames (frames.toNat - done.toNat) := by
  have hlt := UInt64.lt_iff_toNat_lt.1 h
  induction hleft : frames.toNat - done.toNat generalizing done with
  | zero => omega
  | succ n ih =>
    have hcount := toNat_count h
    rw [loopFrom, runFrames]
    congr 1
    funext _
    by_cases hdone : frames ≤ done + 1
    · have hlast : n = 0 := by
        rw [UInt64.le_iff_toNat_le] at hdone
        omega
      rw [if_pos hdone, hlast]
      rfl
    · have hmore := UInt64.not_le.1 hdone
      rw [if_neg hdone]
      exact ih hmore (UInt64.lt_iff_toNat_lt.1 hmore) (by omega)

/-- **The loop runs as many frames as are asked for**, and one if none are. -/
theorem loop_eq (frames : UInt64) : loop frames = runFrames (max frames.toNat 1) := by
  by_cases h : frames = 0
  · rw [h, loop, loopFrom]
    rfl
  · have hpos := UInt64.pos_iff_ne_zero.2 h
    have hone : 1 ≤ frames.toNat := UInt64.lt_iff_toNat_lt.1 hpos
    rw [loop, loopFrom_eq hpos, Nat.max_eq_left hone]
    rfl

/-- Ends the current version for good. -/
def shutdown : Reload Unit := do
  match ← callEntry (← get).terminate with
  | .ok () => pure ()
  | .error f => Work.record .error ("`terminate` failed: " ++ f.message)
  unbind
  match (← get).current with
  | none => pure ()
  | some m => discard (Work.unload m)
  modify fun r => { r with current := none, state := .unloaded }

end Reload

namespace Reloader

/-- The loop before the first attempt. -/
def initial (deps : List Module) (path : String) : Reloader where
  deps := deps
  path := path
  pending := []
  current := none
  state := .unloaded
  update := .named "update"
  terminate := .named "terminate"
  reloads := 0

/-- One notification more. -/
def notify (r : Reloader) (path : String) : Reloader := { r with pending := r.pending ++ [path] }

/-- The loop after the first attempt. -/
def start (deps : List Module) (path : String) : Work Reloader := do
  let ((), r) ← StateT.run Reload.start (initial deps path)
  return r

end Reloader

end Kiln
