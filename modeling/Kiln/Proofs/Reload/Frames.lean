import Kiln.Proofs.Reload.Failing
/-!
# Rows of frames

The loop counts its frames in a word, behind each of them. The count never starts again, as it ends
at the number that is asked for, so the loop runs that many frames, one after the other, wherever it
starts from and however they end (`Reload.loop_eq`). Only none cannot be asked for: the first frame
is run before there is anything to compare. That shows unless the frame has nothing to do, which is
so just if no change is waiting and `update` is not bound, or leaves everything as it was
(`Reload.runFrame_idle_iff`).
-/

namespace Kiln

namespace Reload

variable {α β : Type} {r r' : Reloader} {w w' : Workspace}

/-! ## Changes that were looked at -/

/-- The steps leave no notification behind if there is none before them. -/
def Drained (x : Reload α) : Prop :=
  ∀ ⦃r w a r' w'⦄, r.pending = [] → x r w = .ok (a, r') w' → r'.pending = []

namespace Drained

theorem pure (a : α) : Drained (pure a) := by
  rintro r w _ _ _ h ⟨⟩
  exact h

/-- Steps that leave none follow each other so. -/
theorem bind {x : Reload α} {k : α → Reload β} (hx : Drained x) (hk : ∀ a, Drained (k a)) :
    Drained (x >>= k) := by
  intro r w b r' w' h hrun
  obtain ⟨a, r₁, w₁, hstep, hrest⟩ := ok_of_step hrun
  exact hk a (hx h hstep) hrest

/-- A step that looks at the loop, which has none. -/
theorem look {k : Reloader → Reload β} (hk : ∀ r, r.pending = [] → Drained (k r)) :
    Drained (get >>= k) :=
  fun r _ _ _ _ h hrun => hk r h h hrun

theorem set (h : r.pending = []) : Drained (set r : Reload PUnit) := by
  rintro _ _ _ _ _ _ ⟨⟩
  exact h

theorem modify {f : Reloader → Reloader} (hf : ∀ r, (f r).pending = r.pending) :
    Drained (modify f) := by
  rintro r _ _ _ _ h ⟨⟩
  exact (hf r).trans h

/-- Work on the workspace does not touch the loop. -/
theorem lift (x : Work α) : Drained (liftM x : Reload α) := by
  intro r w a r' w' h hrun
  rw [(ok_of_work hrun).1]
  exact h

theorem discard {x : Reload α} (hx : Drained x) : Drained (discard x : Reload Unit) :=
  hx.bind fun _ => pure _

theorem callEntry (e : EntryPoint) : Drained (callEntry e) := lift _

end Drained

theorem install_drained (m : Module) : Drained (install m) :=
  .look fun _ h => (Drained.lift _).bind fun _ => (Drained.lift _).bind fun _ => .set h

theorem unbind_drained : Drained unbind := .modify fun _ => rfl

theorem retire_drained : Drained retire := by
  refine .look fun r _ => ?_
  rcases r.current with _ | old
  · exact .pure _
  · have hrest : Drained (do
        unbind
        discard (Work.unload old)
        modify fun r => { r with current := none, state := .unloaded } : Reload Unit) :=
      unbind_drained.bind fun _ => (Drained.lift _).discard.bind fun _ => .modify fun _ => rfl
    refine (Drained.callEntry _).bind fun result => ?_
    rcases result with f | ⟨⟩
    · exact (Drained.lift _).bind fun _ => hrest
    · exact hrest

theorem reload_drained : Drained reload := by
  refine .look fun r h => .bind (.set h) fun _ => (Drained.lift _).bind fun fresh => ?_
  rcases fresh with _ | m
  · exact (Drained.lift _).bind fun _ => .bind (.set h) fun _ => .pure _
  · refine retire_drained.bind fun _ => (install_drained m).bind fun _ => ?_
    exact .bind (.modify fun _ => rfl) fun _ => (Drained.lift _).bind fun _ => .pure _

theorem finishFrame_drained : Drained finishFrame := by
  refine .look fun r _ => (Drained.callEntry _).bind fun result => ?_
  rcases result with f | ⟨⟩
  · exact (Drained.lift _).bind fun _ => .modify fun _ => rfl
  · exact .pure _

/-- **Behind a frame no change is waiting.** -/
theorem pending_of_runFrame (h : runFrame r w = .ok ((), r') w') : r'.pending = [] := by
  obtain ⟨changed, r₁, w₁, hpoll, hrest⟩ := ok_of_step (x := pollChanges) h
  have hnone : r₁.pending = [] := by
    cases hpoll
    rfl
  cases changed with
  | true => exact (reload_drained.discard.bind fun _ => finishFrame_drained) hnone hrest
  | false => exact finishFrame_drained hnone hrest

/-! ## Frames with nothing to do -/

/-- A frame has nothing to do: no change is waiting, and `update` is not bound, or leaves everything
as it was. -/
def Idle (r : Reloader) (w : Workspace) : Prop :=
  r.pending = [] ∧ ∀ handle, r.update.handle = some handle →
    ∃ v, Kiln.call w.library handle [] w.store = .ok v w.store

/-- A call of `update` leaves everything as it was just if the function does. -/
theorem updateBy_idle_iff {handle : FunctionHandle} (hbound : r.update.handle = some handle) :
    updateBy (some handle) r w = .ok ((), r) w ↔
      ∃ v, Kiln.call w.library handle [] w.store = .ok v w.store := by
  rw [updateBy]
  rcases Kiln.call w.library handle [] w.store with ⟨v, s⟩ | ⟨f | e, s⟩
  · dsimp only
    constructor
    · intro h
      exact ⟨v, by rw [← (EStateM.Result.ok.inj h).2]⟩
    · rintro ⟨_, h⟩
      rw [(EStateM.Result.ok.inj h).2]
  · -- an `update` that fails is not bound any more
    refine iff_of_false (fun h => ?_) (by rintro ⟨_, ⟨⟩⟩)
    have hunbound := congrArg (·.2.update.handle) (EStateM.Result.ok.inj h).1
    rw [hbound] at hunbound
    cases hunbound
  · exact iff_of_false (by rintro ⟨⟩) (by rintro ⟨_, ⟨⟩⟩)

/-- **A frame leaves everything as it was just if it has nothing to do.** -/
theorem runFrame_idle_iff : runFrame r w = .ok ((), r) w ↔ Idle r w := by
  constructor
  · intro h
    have hpending := pending_of_runFrame h
    rw [runFrame_of_unchanged hpending] at h
    refine ⟨hpending, fun handle hbound => ?_⟩
    rw [hbound] at h
    exact (updateBy_idle_iff hbound).1 h
  · rintro ⟨hpending, hupdate⟩
    rw [runFrame_of_unchanged hpending]
    rcases hbound : r.update.handle with _ | handle
    · rfl
    · exact (updateBy_idle_iff hbound).2 (hupdate handle hbound)

/-! ## The loop -/

theorem runFrames_one : runFrames 1 = runFrame := by
  rw [runFrames, runFrames]
  exact bind_pure_unit

/-- Some work ends, and what comes of it passes a check. -/
def passes (check : α → Workspace → Bool) : EStateM.Result Halt Workspace α → Bool
  | .ok a w => check a w
  | .error _ _ => false

/-- What comes of some work can be found by doing it. -/
theorem exists_of_passes {check : α → Workspace → Bool} {x : EStateM.Result Halt Workspace α}
    (h : passes check x = true) : ∃ a w, x = .ok a w ∧ check a w = true := by
  rcases x with ⟨a, w⟩ | ⟨e, w⟩
  · exact ⟨a, w, rfl, h⟩
  · cases h

/-- A workspace with a file whose `update` prints a line. -/
def printingWorkspace : Workspace :=
  .initial 64 (oneFile "hot" "(fun update () unit (print \"frame\"))")

/-- **The loop runs as many frames as it is asked for**, up to the greatest number there is, from
wherever it starts and in whichever way they end. Asked for none it runs one, which makes no
difference just if that one has nothing to do. -/
theorem loop_frames_iff (frames : UInt64) (r : Reloader) (w : Workspace) :
    loop frames r w = runFrames (max frames.toNat 1) r w ∧
      (loop frames r w = runFrames frames.toNat r w ↔ frames ≠ 0 ∨ Idle r w) := by
  rw [loop_eq]
  refine ⟨rfl, ?_⟩
  by_cases hnone : frames = 0
  · rw [hnone, or_iff_right (not_not_intro rfl), ← runFrame_idle_iff]
    show runFrames 1 r w = .ok ((), r) w ↔ _
    rw [runFrames_one]
  · have hone : 1 ≤ frames.toNat := UInt64.lt_iff_toNat_lt.1 (UInt64.pos_iff_ne_zero.2 hnone)
    rw [Nat.max_eq_left hone]
    exact iff_of_true rfl (.inl hnone)

/-- **No frames cannot be asked for**: a loop that is asked for none prints what the first one
prints. -/
theorem loop_none_prints : ∃ r w r' w', Reloader.start [] "hot" printingWorkspace = .ok r w ∧
    loop 0 r w = .ok ((), r') w' ∧ runFrames 0 r w = .ok ((), r) w ∧
      w.store.output = "" ∧ w'.store.output = "frame\n" := by
  have hpasses :
      passes (fun r w => w.store.output == "" && passes (fun _ w => w.store.output == "frame\n")
        (loop 0 r w)) (Reloader.start [] "hot" printingWorkspace) = true := by
    decide +kernel
  obtain ⟨r, w, hstart, hcheck⟩ := exists_of_passes hpasses
  rw [Bool.and_eq_true, beq_iff_eq] at hcheck
  obtain ⟨⟨⟨⟩, r'⟩, w', hloop, hprinted⟩ := exists_of_passes hcheck.2
  exact ⟨r, w, r', w', hstart, hloop, rfl, hcheck.1, beq_iff_eq.1 hprinted⟩

end Reload

end Kiln
