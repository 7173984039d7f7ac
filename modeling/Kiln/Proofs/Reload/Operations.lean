import Kiln.Proofs.Reload.Standing
/-!
# Operations of the loop

Every operation keeps how the loop stands between two events: compiling the file afresh, looking for
changes, a frame, ending for good. So does every event (`Standing.perform`), and by induction every
row of events (`Standing.performAll`), from the first attempt on (`Standing.start`).
-/

namespace Kiln

namespace Reload

open Told

variable {o : Outset} {c : Telling} {w : Workspace}

/-- **Compiling the file afresh** keeps how the loop stands. One attempt is made. -/
theorem Standing.reload (h : Standing o c) : Meets Told.reload c fun swapped c' =>
    Standing o c' ∧ Added c.log 1 swapped.toNat c'.log := by
  have hcompiling :
      Kept o none false { c with reloader := { c.reloader with state := .compiling } } :=
    h.kept.loop rfl rfl rfl rfl
  refine .look (.set ((hcompiling.attempt c.reloader.path).bind ?_))
  rintro found c₁ ⟨h₁, hloop, hadded, hhead⟩
  cases found with
  | none =>
    have hall : Added c.log 1 0 (.reloaded false :: c₁.log) := hadded.reloaded false
    refine .record fun w halike => .set (.tell (.pure ⟨⟨?_, ?_, ?_⟩, hall⟩))
    -- the loop goes back to what it was before the attempt, but for the state
    · have htold := (h₁.alike halike).tell (d := .reloaded false) hhead rfl (by simp) (by simp)
      refine htold.loop ?_ ?_ ?_ ?_
      all_goals rw [hloop]
    · rcases h.slot with ⟨-, hcurrent⟩ | ⟨-, hcurrent⟩
      · refine .inl ⟨?_, hcurrent⟩
        show (if c.reloader.current.isSome = true then SlotState.loaded else .unloaded) = _
        rw [hcurrent]
        rfl
      · exact .inr ⟨.inl (if_pos hcurrent), hcurrent⟩
    · exact hall.swaps_eq.trans h.count
  | some m =>
    refine (h₁.retire (.inr ⟨m, hhead⟩)).bind ?_
    rintro ⟨⟩ c₂ ⟨h₂, hcurrent, hadded₂⟩
    refine (h₂.install hcurrent).bind ?_
    rintro ⟨⟩ c₃ ⟨h₃, hcurrent₃, hstate, hadded₃, hhead₃, -⟩
    have hall : Added c.log 1 1 (.reloaded true :: c₃.log) :=
      ((hadded.trans hadded₂).trans hadded₃).reloaded true
    have hcounted : Kept o none false { c₃ with reloader := { c₃.reloader with
        reloads := c.reloader.reloads + 1 } } := h₃.loop rfl rfl rfl rfl
    refine .modify (.record fun w halike => .tell (.pure ⟨⟨?_, .inr ⟨.inl hstate, ?_⟩, ?_⟩, hall⟩))
    · exact (hcounted.alike halike).tell ⟨m, hhead₃⟩ rfl (by simp) (by simp)
    · show c₃.reloader.current.isSome = true
      rw [hcurrent₃]
      rfl
    · show (.reloaded true :: c₃.log).countP (·.isSwap) = c.reloader.reloads + 1
      rw [hall.swaps_eq, h.count]

/-- The state of the loop after looking for changes. -/
theorem Standing.polled (h : Standing o c) : Standing o ⟨c.workspace, { c.reloader with
    pending := [],
    state := if !c.reloader.pending.isEmpty && c.reloader.current.isSome then .stale
      else c.reloader.state },
    c.log⟩ := by
  refine ⟨h.kept.loop rfl rfl rfl rfl, ?_, h.count⟩
  rcases h.slot with ⟨hstate, hcurrent⟩ | ⟨hstate, hcurrent⟩
  · refine .inl ⟨?_, hcurrent⟩
    show (if (!c.reloader.pending.isEmpty && c.reloader.current.isSome) = true then SlotState.stale
      else c.reloader.state) = _
    rw [hcurrent, hstate, if_neg (by simp)]
  · refine .inr ⟨?_, hcurrent⟩
    show (if (!c.reloader.pending.isEmpty && c.reloader.current.isSome) = true then SlotState.stale
      else c.reloader.state) = _ ∨ (if _ then SlotState.stale else c.reloader.state) = _
    split
    · exact .inr rfl
    · exact hstate

/-- **Looking for changes** keeps how the loop stands. -/
theorem Standing.pollChanges (h : Standing o c) : Meets (quiet pollChanges) c fun changed c' =>
    Standing o c' ∧ c'.log = c.log ∧ changed = !c.reloader.pending.isEmpty := by
  refine .quiet h.kept.orderly fun changed r w hrun => ?_
  cases hrun
  exact ⟨h.polled, rfl, rfl⟩

/-- A deed that changes nothing. -/
theorem Standing.tell (h : Standing o c) {d : Deed} (hallowed : Allowed c.log d)
    (hsilent : d.isSilent = true) (hswap : d.isSwap = false)
    (hcalls : ∀ t, d ≠ .calls "terminate" t)
    (hfails : ∀ handle, c.reloader.update.handle = some handle → d ≠ .fails "update" handle) :
    Standing o { c with log := d :: c.log } := by
  refine ⟨h.kept.tell hallowed hsilent hcalls hfails, h.slot, ?_⟩
  show (d :: c.log).countP (·.isSwap) = c.reloader.reloads
  rw [List.countP_cons_of_neg (Bool.eq_false_iff.1 hswap)]
  exact h.count

theorem Standing.alike (h : Standing o c) (halike : c.workspace.Alike w) :
    Standing o ⟨w, c.reloader, c.log⟩ :=
  ⟨h.kept.alike halike, h.slot, h.count⟩

/-- The loop stands as before without `update`. -/
theorem Standing.disable (h : Standing o c) :
    Standing o { c with reloader := { c.reloader with update := c.reloader.update.unbind } } :=
  ⟨{ h.kept with update := fun _ hbound => by cases hbound }, h.slot, h.count⟩

/-- **A call of `update`** in a frame in which it was not called yet keeps how the loop stands,
without `update` if the call fails. -/
theorem Standing.callUpdate (h : Standing o c) (hframe : ∃ n, mark? c.log = some (.frameBegins n))
    (hfirst : ∀ handle, .calls "update" handle ∉ sinceMark c.log) :
    Meets (Told.callEntry c.reloader.update) c fun result c' =>
      (if result matches .error _ then
        Standing o { c' with reloader := { c'.reloader with update := c'.reloader.update.unbind } }
        else Standing o c') ∧
      mark? c'.log = mark? c.log ∧
      (sinceMark c'.log).countP (·.isAttempt) = (sinceMark c.log).countP (·.isAttempt) := by
  have hname : c.reloader.update.name = "update" := h.kept.names.1
  have hallowed : ∀ handle, c.reloader.update.handle = some handle →
      Allowed c.log (.calls "update" handle) := by
    intro handle hbound
    obtain ⟨v, hcurrent, hentry, hfails⟩ := h.kept.update handle hbound
    exact ⟨v, (h.kept.live v).2 hcurrent, hentry, h.kept.unended rfl v hcurrent,
      .inl ⟨rfl, hframe, hfails, hfirst⟩⟩
  refine .callEntry h.kept.orderly (hname ▸ hallowed) (fun w result hnone halike => ?_)
    (fun handle w hbound halike => ?_) fun handle f w hbound halike => ?_
  · refine ⟨?_, rfl, rfl⟩
    split
    · exact h.disable.alike halike
    · exact h.alike halike
  · rw [hname]
    exact ⟨(h.tell (hallowed handle hbound) rfl rfl (by simp) (by simp)).alike halike, rfl, rfl⟩
  · rw [hname]
    have hcalled := h.disable.tell (hallowed handle hbound) rfl rfl (by simp) (by simp)
    have hfailed := hcalled.tell (d := .fails "update" handle) rfl rfl rfl (by simp) fun _ hno => by
      cases hno
    exact ⟨hfailed.alike halike, rfl, rfl⟩

/-- **The rest of a frame** keeps how the loop stands, if the changes that there were at its
beginning led to one attempt. -/
theorem Standing.finishFrame {past : List Deed} {n i : Nat} (h : Standing o c)
    (hadded : Added (.frameBegins n :: past) (min n 1) i c.log) :
    Meets Told.finishFrame c fun _ c' => Standing o c' := by
  have hmark : mark? c.log = some (.frameBegins n) := hadded.mark?_eq
  have hattempts : (sinceMark c.log).countP (·.isAttempt) = min n 1 := by
    rw [hadded.attempts_eq]
    exact Nat.zero_add _
  have hends : ∀ c₁, Standing o c₁ → mark? c₁.log = mark? c.log →
      (sinceMark c₁.log).countP (·.isAttempt) = (sinceMark c.log).countP (·.isAttempt) →
      Meets (Told.tell .frameEnds) c₁ fun _ c' => Standing o c' := by
    intro c₁ h₁ hmark₁ hattempts₁
    have hallowed : Allowed c₁.log .frameEnds :=
      ⟨h₁.kept.isSettled, n, hmark₁.trans hmark, hattempts₁.trans hattempts⟩
    exact h₁.tell hallowed rfl rfl (by simp) (by simp)
  refine .look ?_
  refine (h.callUpdate ⟨n, hmark⟩ fun handle => hadded.not_update List.not_mem_nil).bind ?_
  rintro result c₁ ⟨h₁, hmark₁, hattempts₁⟩
  rcases result with f | ⟨⟩
  · exact .record fun w halike => .modify (hends _ (h₁.alike halike) hmark₁ hattempts₁)
  · exact hends c₁ h₁ hmark₁ hattempts₁

/-- **A frame** keeps how the loop stands. -/
theorem Standing.runFrame (h : Standing o c) :
    Meets Told.runFrame c fun _ c' => Standing o c' := by
  have hbegan : Standing o { c with log := .frameBegins c.reloader.pending.length :: c.log } :=
    h.tell h.kept.isSettled rfl rfl (by simp) (by simp)
  refine .look (.tell (hbegan.pollChanges.bind ?_))
  rintro changed c₁ ⟨h₁, hlog, hchanged⟩
  cases changed with
  | true =>
    have hpending : min c.reloader.pending.length 1 = 1 := by
      rcases hp : c.reloader.pending with _ | ⟨p, ps⟩
      · rw [hp] at hchanged
        cases hchanged
      · simp
    refine h₁.reload.discard.bind ?_
    rintro ⟨⟩ c₂ ⟨swapped, h₂, hadded⟩
    rw [hlog, ← hpending] at hadded
    exact h₂.finishFrame hadded
  | false =>
    have hpending : min c.reloader.pending.length 1 = 0 := by
      rcases hp : c.reloader.pending with _ | ⟨p, ps⟩
      · rfl
      · rw [hp] at hchanged
        cases hchanged
    have hadded : Added (.frameBegins c.reloader.pending.length :: c.log) 0 0 c₁.log := hlog ▸ .none
    rw [← hpending] at hadded
    exact h₁.finishFrame hadded

/-- **The rest of a shutdown** after the current version was told to end. -/
theorem Kept.finishShutdown (h : Kept o none true c)
    (hcount : c.log.countP (·.isSwap) = c.reloader.reloads) :
    Meets Told.finishShutdown c fun _ c' => Standing o c' := by
  -- the last steps, when there is no version any more
  have hdone : ∀ c₁ : Telling, Kept o none false ⟨c₁.workspace,
      { c₁.reloader with current := none, state := .unloaded }, c₁.log⟩ →
      c₁.log.countP (·.isSwap) = c₁.reloader.reloads →
      Meets (do
        Told.quiet (modify fun r => { r with current := none, state := .unloaded })
        Told.tell .shutdownEnds) c₁ fun _ c' => Standing o c' := by
    intro c₁ h₁ hcount₁
    have hstands : Standing o ⟨c₁.workspace,
      { c₁.reloader with current := none, state := .unloaded }, c₁.log⟩ := ⟨h₁,
      .inl ⟨rfl, rfl⟩, hcount₁⟩
    have hallowed : Allowed c₁.log .shutdownEnds := by
      intro v hv
      by_contra hremoved
      cases (h₁.live v).1 ⟨hv, hremoved⟩
    exact .modify (hstands.tell hallowed rfl rfl (by simp) (by simp))
  refine h.unbind.bind ?_
  rintro ⟨⟩ c₁ ⟨h₁, hc₁⟩
  have hunbound : c₁.reloader.update.handle = none ∧ c₁.reloader.terminate.handle = none := by
    rw [hc₁]
    exact ⟨rfl, rfl⟩
  have hcount₁ : c₁.log.countP (·.isSwap) = c₁.reloader.reloads := by
    rw [hc₁]
    exact hcount
  refine .look ?_
  rcases hcurrent : c₁.reloader.current with _ | v
  · exact hdone c₁ (h₁.vacant hcurrent hunbound _) hcount₁
  · refine (h₁.vacate hcurrent hunbound).bind ?_
    rintro ⟨⟩ c₂ ⟨hloop, hadded, h₂⟩
    refine hdone c₂ ?_ ?_
    · rw [hloop]
      exact h₂ .unloaded
    · rw [hloop, hadded.swaps_eq]
      exact hcount₁

/-- **Ending for good** keeps how the loop stands. -/
theorem Standing.shutdown (h : Standing o c) :
    Meets Told.shutdown c fun _ c' => Standing o c' := by
  have hbegan : Standing o { c with log := .shutdownBegins :: c.log } :=
    h.tell h.kept.isSettled rfl rfl (by simp) (by simp)
  refine .tell (.look ((hbegan.kept.callTerminate (.inl rfl)).bind ?_))
  rintro result c₁ ⟨h₁, hloop, hadded⟩
  have hcount : c₁.log.countP (·.isSwap) = c₁.reloader.reloads := by
    rw [hadded.swaps_eq, hloop]
    exact hbegan.count
  rcases result with f | ⟨⟩
  · exact .record fun w halike => (h₁.alike halike).finishShutdown hcount
  · exact h₁.finishShutdown hcount

/-! ## Runs -/

/-- Before the first attempt there is no version. -/
theorem Kept.initial (path : String) :
    Kept o none false ⟨o.workspace, .initial o.deps path, []⟩ where
  orderly := trivial
  deps := rfl
  names := ⟨rfl, rfl⟩
  update _ hbound := by cases hbound
  terminate _ := rfl
  unended _ _ hcurrent := by cases hcurrent
  ended hno := by cases hno
  live v := ⟨fun hlive => absurd hlive.1 List.not_mem_nil, fun hcurrent => by cases hcurrent⟩
  settled _ hattempt := absurd hattempt List.not_mem_nil
  grows := Nat.le_refl _
  known _ hinstalled := absurd hinstalled List.not_mem_nil
  newest _ hfresh := by cases hfresh
  graph _ := by simp [Reloader.initial]

/-- **After the first attempt the loop stands**, with or without a version. -/
theorem Standing.start (path : String) : Meets Told.start ⟨o.workspace, .initial o.deps path, []⟩
    fun _ c' => Standing o c' := by
  have hcompiling : Kept o none false
      ⟨o.workspace, { Reloader.initial o.deps path with state := .compiling }, []⟩ :=
    (Kept.initial path).loop rfl rfl rfl rfl
  refine .look (.set ((hcompiling.attempt path).bind ?_))
  rintro found c₁ ⟨h₁, hloop, hadded, -⟩
  have hcurrent : c₁.reloader.current = none := by rw [hloop]; rfl
  have hreloads : c₁.reloader.reloads = 0 := by rw [hloop]; rfl
  cases found with
  | some m =>
    refine Meets.imp (h₁.install hcurrent) ?_
    rintro ⟨⟩ c₂ ⟨h₂, hcurrent₂, hstate, hadded₂, -, hreloads₂⟩
    refine ⟨h₂, .inr ⟨.inl hstate, ?_⟩, ?_⟩
    · rw [hcurrent₂]
      rfl
    · rw [(hadded.trans hadded₂).swaps_eq, hreloads₂, hreloads]
      rfl
  | none =>
    refine .record fun w halike => ?_
    refine ⟨(h₁.alike halike).loop rfl rfl rfl rfl, .inl ⟨rfl, hcurrent⟩, ?_⟩
    show c₁.log.countP (·.isSwap) = c₁.reloader.reloads
    rw [hadded.swaps_eq, hreloads]
    rfl

theorem Standing.runFrames {n : Nat} (h : Standing o c) :
    Meets (Told.runFrames n) c fun _ c' => Standing o c' := by
  induction n generalizing c with
  | zero => exact .pure h
  | succ n ih => exact h.runFrame.bind fun _ _ h' => ih h'

/-- **Every event keeps how the loop stands.** -/
theorem Standing.perform (h : Standing o c) (e : Happening) :
    Meets (Told.perform e) c fun _ c' => Standing o c' := by
  cases e with
  | notify path =>
    refine Meets.quiet (x := Reload.perform (.notify path)) h.kept.orderly fun _ r w hrun => ?_
    cases hrun
    exact ⟨h.kept.loop rfl rfl rfl rfl, h.slot, h.count⟩
  | edit files =>
    refine Meets.quiet (x := Reload.perform (.edit files)) h.kept.orderly fun _ r w hrun => ?_
    cases hrun
    exact h.alike ⟨rfl, rfl⟩
  | poll =>
    refine Meets.quiet (x := Reload.perform .poll) h.kept.orderly fun _ r w hrun => ?_
    cases hrun
    exact h.polled
  | reload => exact Meets.imp h.reload.discard fun _ _ ⟨_, h', _⟩ => h'
  | frame => exact h.runFrame
  | frames count => exact h.runFrames
  | shutdown => exact h.shutdown

/-- **The loop stands so after every row of events**, and all that it did was allowed. -/
theorem Standing.performAll {es : List Happening} (h : Standing o c) :
    Meets (Told.performAll es) c fun _ c' => Standing o c' := by
  induction es generalizing c with
  | nil => exact .pure h
  | cons e es ih => exact (h.perform e).bind fun _ _ h' => ih h'

theorem Standing.live (path : String) (es : List Happening) :
    Meets (Told.live es) ⟨o.workspace, .initial o.deps path, []⟩ fun _ c' => Standing o c' :=
  (Standing.start path).bind fun _ _ h => h.performAll

end Reload

end Kiln
