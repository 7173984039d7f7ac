import Kiln.Proofs.Reload.Deeds
/-!
# The loop, telling what it does

The same loop once more, which writes down its deeds beside its state (`Told`). The list stays when
all work ends for good, so that it also tells what was done until then. `Told.Of y x` says that `y`
is `x` if the list is forgotten: both end alike, with the same loop and the same workspace. That is
so of every run (`Told.of_performAll`), whatever happens to the file and to the notifications in
between.
-/

namespace Kiln

namespace Reload

/-! ## Runs -/

/-- What can happen to the loop: its operations, changes of files, and notifications of changes.
Frames between which something changes are events of their own. -/
inductive Happening where
  | notify (path : String)
  /-- The files change, in any way. -/
  | edit (files : Files)
  | poll
  | reload
  | frame
  | frames (count : UInt64)
  | shutdown

/-- One event. -/
def perform : Happening → Reload Unit
  | .notify path => modify (·.notify path)
  | .edit files => liftM (modify fun w => { w with files } : Work Unit)
  | .poll => discard pollChanges
  | .reload => discard reload
  | .frame => runFrame
  | .frames count => loop count
  | .shutdown => shutdown

/-- One event after the other. -/
def performAll : List Happening → Reload Unit
  | [] => pure ()
  | e :: es => do
    perform e
    performAll es

/-- The first attempt, and then a row of events. -/
def live (es : List Happening) : Reload Unit := do
  start
  performAll es

end Reload

/-- The workspace, the loop, and what it has done. -/
structure Telling where
  workspace : Workspace
  reloader : Reloader
  log : List Reload.Deed

/-- Steps of the loop that tell what they do. -/
abbrev Told := EStateM Halt Telling

namespace Told

open Reload

/-- A step of the loop with nothing to tell of it. -/
def quiet (x : Reload α) : Told α := fun c =>
  match x c.reloader c.workspace with
  | .ok (a, reloader) workspace => .ok a { c with workspace, reloader }
  | .error h workspace => .error h { c with workspace }

/-- Tells a deed. -/
def tell (d : Deed) : Told Unit := modify fun c => { c with log := d :: c.log }

/-- Calls an entry point. -/
def callEntry (e : EntryPoint) : Told (Except Fault Unit) := do
  match e.handle with
  | none => quiet (Reload.callEntry e)
  | some handle =>
    tell (.calls e.name handle)
    let r ← quiet (Reload.callEntry e)
    if r matches .error _ then tell (.fails e.name handle)
    return r

/-- Makes a module the current version. -/
def install (m : Module) : Told Unit := do
  quiet (Reload.install m)
  tell (.installed m)

/-- Compiles the file at a path. -/
def attempt (path : String) (deps : List Module) : Told (Option Module) := do
  let fresh ← quiet (Work.load path deps)
  tell (.attempt fresh)
  return fresh

/-- Takes a version out of the graph. -/
def remove (m : Module) : Told Unit := do
  quiet (discard (Work.unload m))
  tell (.removed m)

/-- The first attempt at a version. -/
def start : Told Unit := do
  let r ← quiet get
  quiet (set { r with state := .compiling })
  match ← attempt r.path r.deps with
  | some m => install m
  | none =>
    quiet (Work.record .warning
      ("initial compile of " ++ r.path ++ " failed; update is a no-op until it is fixed"))
    quiet (modify fun r => { r with state := .unloaded })

/-- Ends the version there is, if there is one. -/
def retire : Told Unit := do
  let r ← quiet get
  match r.current with
  | none => pure ()
  | some old =>
    match ← callEntry r.terminate with
    | .ok () => pure ()
    | .error f =>
      quiet (Work.record .error ("`terminate` of `" ++ old.name ++ "` failed: " ++ f.message))
    quiet Reload.unbind
    remove old
    quiet (modify fun r => { r with current := none, state := .unloaded })

/-- Compiles the file afresh and puts the result in place of the current version. -/
def reload : Told Bool := do
  let r ← quiet get
  quiet (set { r with state := .compiling })
  match ← attempt r.path r.deps with
  | none =>
    quiet (Work.record .warning ("keeping the previous version of " ++ r.path))
    quiet (set { r with state := if r.current.isSome then .loaded else .unloaded })
    tell (.reloaded false)
    return false
  | some fresh =>
    retire
    install fresh
    let count := r.reloads + 1
    quiet (modify fun r => { r with reloads := count })
    quiet (Work.record .info ("reloaded " ++ r.path ++ " (reload #" ++ toString count ++ ")"))
    tell (.reloaded true)
    return true

/-- The rest of a frame, once changes were picked up. -/
def finishFrame : Told Unit := do
  match ← callEntry (← quiet get).update with
  | .ok () => pure ()
  | .error f =>
    quiet (Work.record .error
      ("`update` failed: " ++ f.message ++ "; disabled until the next reload"))
    quiet (modify fun r => { r with update := r.update.unbind })
  tell .frameEnds

/-- One frame: changes are picked up, and `update` is called. -/
def runFrame : Told Unit := do
  tell (.frameBegins (← quiet get).pending.length)
  if ← quiet pollChanges then discard reload
  finishFrame

/-- Some frames. -/
def runFrames : Nat → Told Unit
  | 0 => pure ()
  | n + 1 => do
    runFrame
    runFrames n

/-- The rest of a shutdown, once the current version was told to end. -/
def finishShutdown : Told Unit := do
  quiet Reload.unbind
  match (← quiet get).current with
  | none => pure ()
  | some m => remove m
  quiet (modify fun r => { r with current := none, state := .unloaded })
  tell .shutdownEnds

/-- Ends the current version for good. -/
def shutdown : Told Unit := do
  tell .shutdownBegins
  match ← callEntry (← quiet get).terminate with
  | .ok () => pure ()
  | .error f => quiet (Work.record .error ("`terminate` failed: " ++ f.message))
  finishShutdown

/-- One event. -/
def perform : Happening → Told Unit
  | .reload => discard reload
  | .frame => runFrame
  | .frames count => runFrames (max count.toNat 1)
  | .shutdown => shutdown
  | e => quiet (Reload.perform e)

/-- One event after the other. -/
def performAll : List Happening → Told Unit
  | [] => pure ()
  | e :: es => do
    perform e
    performAll es

/-- The first attempt, and then a row of events. -/
def live (es : List Happening) : Told Unit := do
  start
  performAll es

/-- What was done until a run ended, in whichever way. -/
def deeds : EStateM.Result Halt Telling α → List Deed
  | .ok _ c | .error _ c => c.log

/-! ## What is told is what is done -/

/-- An end of a run, with what was told forgotten. -/
def forget : EStateM.Result Halt Telling α → EStateM.Result Halt Workspace (α × Reloader)
  | .ok a c => .ok (a, c.reloader) c.workspace
  | .error h c => .error h c.workspace

/-- The steps are those of the loop, once what they tell is forgotten. -/
def Of (y : Told α) (x : Reload α) : Prop := ∀ c, forget (y c) = x c.reloader c.workspace

namespace Of

variable {α β : Type}

theorem pure (a : α) : Of (pure a) (pure a) := fun _ => rfl

theorem quiet (x : Reload α) : Of (Told.quiet x) x := by
  intro c
  show forget (match x c.reloader c.workspace with
    | .ok (a, reloader) workspace => .ok a { c with workspace, reloader }
    | .error h workspace => .error h { c with workspace }) = _
  split
  · rename_i heq
    exact heq.symm
  · rename_i heq
    exact heq.symm

/-- **Steps that tell what they do follow each other** as the steps of the loop do. -/
theorem bind {y : Told α} {x : Reload α} {k : α → Told β} {l : α → Reload β} (hx : Of y x)
    (hk : ∀ a, Of (k a) (l a)) : Of (y >>= k) (x >>= l) := by
  intro c
  have hstep := hx c
  show forget (EStateM.bind y k c) = EStateM.bind (x c.reloader) (fun p => l p.1 p.2) c.workspace
  unfold EStateM.bind
  rw [← hstep]
  rcases hyc : y c with ⟨a, c'⟩ | ⟨h, c'⟩
  · exact hk a c'
  · rfl

theorem tell (d : Deed) : Of (Told.tell d) (Pure.pure ()) := fun _ => rfl

/-- Nothing is done by looking at the loop first. -/
theorem look {k : Reloader → Told α} {x : Reload α} (hk : ∀ r, Of (k r) x) :
    Of (Told.quiet get >>= k) x := fun c => hk c.reloader c

/-- Nothing is done by telling a deed first. -/
theorem tell_bind (d : Deed) {y : Told α} {x : Reload α} (hx : Of y x) :
    Of (Told.tell d >>= fun _ => y) x :=
  fun c => hx { c with log := d :: c.log }

/-- Nothing is done by steps that only tell. -/
theorem followed {y : Told α} {x : Reload α} {k : α → Told α} (hx : Of y x)
    (hk : ∀ a, Of (k a) (Pure.pure a)) : Of (y >>= k) x := by
  intro c
  have hstep := hx c
  show forget (EStateM.bind y k c) = _
  unfold EStateM.bind
  rw [← hstep]
  rcases hyc : y c with ⟨a, c'⟩ | ⟨h, c'⟩
  · exact hk a c'
  · rfl

end Of

theorem of_callEntry (e : EntryPoint) : Of (callEntry e) (Reload.callEntry e) := by
  unfold callEntry
  split
  · exact .quiet _
  · refine .tell_bind _ (.followed (.quiet _) fun r => ?_)
    rcases r with f | ⟨⟩
    · exact .tell_bind _ (.pure _)
    · exact .pure _

theorem of_install (m : Module) : Of (install m) (Reload.install m) :=
  .followed (.quiet _) fun _ => .tell_bind _ (.pure _)

theorem of_attempt (path : String) (deps : List Module) :
    Of (attempt path deps) (Work.load path deps) :=
  .followed (.quiet _) fun _ => .tell_bind _ (.pure _)

theorem of_remove (m : Module) : Of (remove m) (discard (Work.unload m)) :=
  .followed (.quiet _) fun _ => .tell_bind _ (.pure _)

theorem of_start : Of start Reload.start := by
  refine (Of.quiet _).bind fun r => (Of.quiet _).bind fun _ => ?_
  refine (of_attempt _ _).bind fun fresh => ?_
  cases fresh with
  | some m => exact of_install m
  | none => exact (Of.quiet _).bind fun _ => .quiet _

theorem of_retire : Of retire Reload.retire := by
  refine (Of.quiet _).bind fun r => ?_
  rcases r.current with _ | old
  · exact .pure _
  · refine (of_callEntry _).bind fun result => ?_
    rcases result with f | ⟨⟩
    · refine (Of.quiet _).bind fun _ => (Of.quiet _).bind fun _ => ?_
      exact (of_remove old).bind fun _ => .quiet _
    · refine (Of.quiet _).bind fun _ => ?_
      exact (of_remove old).bind fun _ => .quiet _

theorem of_reload : Of reload Reload.reload := by
  refine (Of.quiet _).bind fun r => (Of.quiet _).bind fun _ => ?_
  refine (of_attempt _ _).bind fun fresh => ?_
  cases fresh with
  | none => exact (Of.quiet _).bind fun _ => (Of.quiet _).bind fun _ => .tell_bind _ (.pure _)
  | some m =>
    refine of_retire.bind fun _ => (of_install m).bind fun _ => ?_
    exact (Of.quiet _).bind fun _ => (Of.quiet _).bind fun _ => .tell_bind _ (.pure _)

theorem of_runFrame : Of runFrame Reload.runFrame := by
  have hfinish : Of finishFrame (do
      match ← Reload.callEntry (← get).update with
      | .ok () => pure ()
      | .error f =>
        Work.record .error ("`update` failed: " ++ f.message ++ "; disabled until the next reload")
        modify fun r => { r with update := r.update.unbind }) := by
    refine (Of.quiet _).bind fun r => (of_callEntry _).bind fun result => ?_
    rcases result with f | ⟨⟩
    · exact (Of.quiet _).bind fun _ => .followed (.quiet _) fun _ => .tell _
    · exact .tell _
  refine .look fun r => .tell_bind _ ((Of.quiet _).bind fun changed => ?_)
  cases changed with
  | true => exact (of_reload.bind fun _ => .pure _).bind fun _ => hfinish
  | false => exact hfinish

theorem of_runFrames : ∀ n, Of (runFrames n) (Reload.runFrames n)
  | 0 => .pure _
  | n + 1 => of_runFrame.bind fun _ => of_runFrames n

theorem of_shutdown : Of shutdown Reload.shutdown := by
  have hfinish : Of finishShutdown (do
      Reload.unbind
      match (← get).current with
      | none => pure ()
      | some m => discard (Work.unload m)
      modify fun r => { r with current := none, state := .unloaded }) := by
    refine (Of.quiet _).bind fun _ => (Of.quiet _).bind fun r => ?_
    rcases r.current with _ | m
    · exact .followed (.quiet _) fun _ => .tell _
    · exact (of_remove m).bind fun _ => .followed (.quiet _) fun _ => .tell _
  refine .tell_bind _ ((Of.quiet _).bind fun r => (of_callEntry _).bind fun result => ?_)
  rcases result with f | ⟨⟩
  · exact (Of.quiet _).bind fun _ => hfinish
  · exact hfinish

theorem of_perform (e : Happening) : Of (perform e) (Reload.perform e) := by
  cases e with
  | reload => exact of_reload.bind fun _ => .pure _
  | frame => exact of_runFrame
  | frames count =>
    show Of _ (loop count)
    rw [loop_eq]
    exact of_runFrames _
  | shutdown => exact of_shutdown
  | notify path => exact .quiet (Reload.perform (.notify path))
  | edit files => exact .quiet (Reload.perform (.edit files))
  | poll => exact .quiet (Reload.perform .poll)

/-- **The loop that tells what it does is the loop**, over every row of events. -/
theorem of_performAll : ∀ es, Of (performAll es) (Reload.performAll es)
  | [] => .pure _
  | e :: es => (of_perform e).bind fun _ => of_performAll es

theorem of_live (es : List Happening) : Of (live es) (Reload.live es) :=
  of_start.bind fun _ => of_performAll es

end Told

end Kiln
