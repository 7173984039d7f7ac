import Kiln.Proofs.Machine.Levels
/-!
# The limit on depth

Evaluation is given the levels that are left. Here it counts the levels it is at instead, in a
counter that is a part of the state (`Gauge`), is raised before a level and lowered after it,
however that ends (`Metered.nested`), and is checked against the limit before it is raised, or not
checked at all (`metered`). Nothing bounds such evaluation but its answer: it gives none within so
many turns and levels if it has not ended by then, and it ends in a way if it does so within some
(`Metered.Ends`).

The counter is where it was when evaluation has ended, and the check changes nothing but that some
evaluation is cut short (`depth_transparent`). With the check this is what `eval` does with the
levels that the counter leaves.
-/

namespace Kiln

/-- A store with a count of levels. -/
structure Gauge where
  store : Store
  /-- The levels that evaluation is nested. -/
  depth : Nat
  /-- The most levels that it has been nested. -/
  deepest : Nat

namespace Gauge

/-- One level more. -/
def enter (g : Gauge) : Gauge :=
  { g with depth := g.depth + 1, deepest := max g.deepest (g.depth + 1) }

/-- One level less. -/
def leave (g : Gauge) : Gauge := { g with depth := g.depth - 1 }

end Gauge

/-- Computations that may count levels, and may stop. There is no answer if they have not ended. -/
def Metered (α : Type) : Type := Gauge → Option (Except Stop α × Gauge)

/-- How a run ended, and with what store. -/
def outcome {α : Type} : EStateM.Result Stop Store α → Except Stop α × Store
  | .ok a s => (.ok a, s)
  | .error e s => (.error e, s)

namespace Metered

variable {α β : Type}

instance : Monad Metered where
  pure a := fun g => some (.ok a, g)
  bind x f := fun g =>
    match x g with
    | none => none
    | some (.error e, g') => some (.error e, g')
    | some (.ok a, g') => f a g'

/-- Runs do not touch the count. -/
instance : MonadLift Run Metered where
  monadLift x :=
    fun g => some ((outcome (x g.store)).1, { g with store := (outcome (x g.store)).2 })

/-- Nothing has ended. -/
def unfinished : Metered α := fun _ => none

/-- The way that evaluation ends beyond the limit. -/
def overflow : Except Stop α := .error (.fault (.tooDeep maxDepth))

/-- Goes a level deeper for a computation and comes back from it; if the limit is checked, it has to
allow that. -/
def nested (checked : Bool) (x : Metered α) : Metered α := fun g =>
  if checked = true ∧ maxDepth ≤ g.depth then some (overflow, g)
  else (x g.enter).map fun end_ => (end_.1, end_.2.leave)

end Metered

/-- Runs code of the module `home` in a frame, with a count of levels, for so many turns of a loop
and so many levels from here. -/
def metered (lib : Library) (checked : Bool) (turns : Nat) : Nat → ModuleId → Code → Frame →
    Metered (Value × Frame)
  | 0, _, _, _ => .unfinished
  | levels + 1, home, code, fr =>
    .nested checked (level lib (metered lib checked turns levels)
      (fun ev cond body => levelLoop ev .unfinished cond body turns) home code fr)

/-- Calls a function, with a count of levels. -/
def meteredCall (lib : Library) (checked : Bool) (turns levels : Nat) (handle : FunctionHandle)
    (args : List Value) :
    Metered Value :=
  levelInvoke lib (metered lib checked turns levels) handle args

namespace Metered

variable {α β : Type}

/-- The computation ends in this way within some turns and levels. -/
def Ends (x : Nat → Nat → Metered α) (g : Gauge) (r : Except Stop α) (g' : Gauge) : Prop :=
  ∃ turns levels, x turns levels g = some (r, g')

theorem bind_eq_some {x : Metered α} {f : α → Metered β} {g g' : Gauge} {r : Except Stop β} :
    (x >>= f) g = some (r, g') ↔ (∃ e, x g = some (.error e, g') ∧ r = .error e) ∨
      ∃ a g₁, x g = some (.ok a, g₁) ∧ f a g₁ = some (r, g') := by
  show (match x g with
    | none => none
    | some (.error e, g') => some (.error e, g')
    | some (.ok a, g') => f a g') = some (r, g') ↔ _
  generalize x g = end_
  constructor
  · intro h
    rcases end_ with _ | ⟨e | a, g₁⟩
    · cases h
    · cases h
      exact .inl ⟨e, rfl, rfl⟩
    · exact .inr ⟨a, g₁, rfl, h⟩
  · rintro (⟨e, rfl, rfl⟩ | ⟨a, g₁, rfl, h⟩)
    · rfl
    · exact h

/-! ## The count -/

/-- The count is where it was when the computation has ended, and never went beyond a limit that is
checked. -/
def Steady (checked : Bool) (x : Metered α) : Prop :=
  ∀ g r g', x g = some (r, g') → g'.depth = g.depth ∧
    (checked = true → g'.deepest ≤ max g.deepest maxDepth)

theorem Steady.nested {checked : Bool} {x : Metered α} (h : x.Steady checked) :
    (nested checked x).Steady checked := by
  intro g r g' hends
  rw [Metered.nested] at hends
  split at hends
  · cases hends
    exact ⟨rfl, fun _ => Nat.le_max_left _ _⟩
  · rename_i hfree
    obtain ⟨⟨r, g₁⟩, hx, hend⟩ := Option.map_eq_some_iff.1 hends
    cases hend
    obtain ⟨hdepth, hdeepest⟩ := h _ _ _ hx
    refine ⟨?_, fun hchecked => ?_⟩
    · rw [Gauge.leave, hdepth]
      rfl
    · have hlt : g.depth < maxDepth := Nat.not_le.1 fun hle => hfree ⟨hchecked, hle⟩
      have hbound : g₁.deepest ≤ max (max g.deepest (g.depth + 1)) maxDepth := hdeepest hchecked
      show g₁.deepest ≤ _
      omega

/-! ## More turns and levels, and less depth -/

/-- Started no deeper, and with no check that there was not before, `y` ends as `x` does. If `x`
ends beyond the limit, that takes the same check at the same depth. -/
def outlasts (checked checked' : Bool) : Simulation Metered Metered where
  Rel x y :=
    x.Steady checked ∧ ∀ g h r g', h.store = g.store → h.depth ≤ g.depth → x g = some (r, g') →
    (r ≠ overflow ∨ (checked' = checked ∧ h.depth = g.depth)) →
    ∃ h', y h = some (r, h') ∧ h'.store = g'.store ∧ h'.depth = h.depth
  pure a := by
    refine ⟨fun g r g' hends => ?_, fun g h r g' hstore _ hends _ => ?_⟩
    all_goals
      cases hends
      first
      | exact ⟨rfl, fun _ => Nat.le_max_left _ _⟩
      | exact ⟨h, rfl, hstore, rfl⟩
  lift x := by
    refine ⟨fun g r g' hends => ?_, fun g h r g' hstore _ hends _ => ?_⟩
    all_goals cases hends
    · exact ⟨rfl, fun _ => Nat.le_max_left _ _⟩
    · refine ⟨{ h with store := (outcome (x g.store)).2 }, ?_, rfl, rfl⟩
      rw [← hstore]
      rfl
  bind := by
    rintro α β x y f k ⟨hsteady, hx⟩ hf
    refine ⟨fun g r g' hends => ?_, fun g h r g' hstore hle hends hallowed => ?_⟩
    · rcases bind_eq_some.1 hends with ⟨e, hstop, rfl⟩ | ⟨a, g₁, hvalue, hrest⟩
      · exact hsteady _ _ _ hstop
      · obtain ⟨hdepth, hdeepest⟩ := hsteady _ _ _ hvalue
        obtain ⟨hdepth', hdeepest'⟩ := (hf a).1 _ _ _ hrest
        refine ⟨hdepth'.trans hdepth, fun hchecked => ?_⟩
        have := hdeepest hchecked
        have := hdeepest' hchecked
        omega
    · rcases bind_eq_some.1 hends with ⟨e, hstop, rfl⟩ | ⟨a, g₁, hvalue, hrest⟩
      · have hallowed' : (Except.error e : Except Stop α) ≠ overflow ∨
            (checked' = checked ∧ h.depth = g.depth) :=
          hallowed.imp_left fun hne heq => hne (by cases heq; rfl)
        obtain ⟨h', hy, hstore', hdepth'⟩ := hx _ _ _ _ hstore hle hstop hallowed'
        exact ⟨h', bind_eq_some.2 (.inl ⟨e, hy, rfl⟩), hstore', hdepth'⟩
      · obtain ⟨h₁, hy, hstore₁, hdepth₁⟩ := hx _ _ _ _ hstore hle hvalue (.inl (by rintro ⟨⟩))
        have hdepth : g₁.depth = g.depth := (hsteady _ _ _ hvalue).1
        rw [← hdepth, ← hdepth₁] at hle hallowed
        obtain ⟨h', hk, hstore', hdepth'⟩ := (hf a).2 _ _ _ _ hstore₁ hle hrest hallowed
        exact ⟨h', bind_eq_some.2 (.inr ⟨a, h₁, hy, hk⟩), hstore', hdepth'.trans hdepth₁⟩

theorem outlasts_unfinished {checked checked' : Bool} (y : Metered α) :
    (outlasts checked checked').Rel unfinished y := by
  constructor
  · intro g r g' hends
    cases hends
  · intro g h r g' _ _ hends
    cases hends

theorem outlasts_nested {checked checked' : Bool} (hchecked : checked' = true → checked = true)
    {x y : Metered α} (h : (outlasts checked checked').Rel x y) :
    (outlasts checked checked').Rel (nested checked x) (nested checked' y) := by
  refine ⟨h.1.nested, fun g g₂ r g' hstore hle hends hallowed => ?_⟩
  rw [nested] at hends ⊢
  split at hends
  · rename_i hbeyond
    cases hends
    -- the other one ends beyond the limit as well
    obtain ⟨rfl, hdepth⟩ := hallowed.resolve_left fun hne => hne rfl
    rw [if_pos (hdepth ▸ hbeyond)]
    exact ⟨g₂, rfl, hstore, rfl⟩
  · rename_i hfree
    rw [if_neg fun hbeyond => hfree ⟨hchecked hbeyond.1, Nat.le_trans hbeyond.2 hle⟩]
    obtain ⟨⟨r, g₁⟩, hx, hend⟩ := Option.map_eq_some_iff.1 hends
    cases hend
    have hallowed' : r ≠ overflow ∨ (checked' = checked ∧ g₂.enter.depth = g.enter.depth) :=
      hallowed.imp_right fun ⟨heq, hdepth⟩ => ⟨heq, congrArg (· + 1) hdepth⟩
    obtain ⟨h₁, hy, hstore₁, hdepth₁⟩ :=
      h.2 g.enter g₂.enter r g₁ hstore (Nat.succ_le_succ hle) hx hallowed'
    refine ⟨h₁.leave, by rw [hy]; rfl, hstore₁, ?_⟩
    rw [Gauge.leave, hdepth₁]
    rfl

/-! ## Evaluation with the levels that are left -/

/-- From the depth `d`, the second computation ends as the first does, and with the count where it
was. -/
def counts (d : Nat) : Simulation Run Metered where
  Rel x y := ∀ g r s, g.depth = d → outcome (x g.store) = (r, s) → r ≠ .error (.halt .endless) →
    ∃ g', y g = some (r, g') ∧ g'.store = s ∧ g'.depth = d
  pure a := by
    rintro g r s rfl hends _
    cases hends
    exact ⟨g, rfl, rfl, rfl⟩
  lift x := by
    rintro g r s rfl hends _
    have hx : outcome (x g.store) = (r, s) := hends
    refine ⟨{ g with store := s }, ?_, rfl, rfl⟩
    show some ((outcome (x g.store)).1, { g with store := (outcome (x g.store)).2 }) = _
    rw [hx]
  bind := by
    rintro α β x y f k hx hf g r s hdepth hends hr
    have hbind : outcome (EStateM.bind x f g.store) = (r, s) := hends
    unfold EStateM.bind at hbind
    rcases hxg : x g.store with ⟨a, s₁⟩ | ⟨e, s₁⟩
    · rw [hxg] at hbind
      obtain ⟨g₁, hy, rfl, hdepth₁⟩ := hx g (.ok a) s₁ hdepth (by rw [hxg]; rfl) (by rintro ⟨⟩)
      obtain ⟨g', hk, hg'⟩ := hf a g₁ r s hdepth₁ hbind hr
      exact ⟨g', bind_eq_some.2 (.inr ⟨a, g₁, hy, hk⟩), hg'⟩
    · rw [hxg] at hbind
      cases hbind
      obtain ⟨g', hy, hg'⟩ :=
        hx g (.error e) s hdepth (by rw [hxg]; rfl) fun heq => hr (by cases heq; rfl)
      exact ⟨g', bind_eq_some.2 (.inl ⟨e, hy, rfl⟩), hg'⟩

theorem counts_nested {d : Nat} (hd : d < maxDepth) {x : Run α} {y : Metered α}
    (h : (counts (d + 1)).Rel x y) :
    (counts d).Rel x (nested true y) := by
  rintro g r s rfl hends hr
  obtain ⟨g', hy, hstore, hdepth⟩ := h g.enter r s rfl hends hr
  rw [nested, if_neg fun hbeyond => Nat.not_le.2 hd hbeyond.2, hy]
  refine ⟨g'.leave, rfl, hstore, ?_⟩
  rw [Gauge.leave, hdepth]
  rfl

end Metered

open Metered

variable {lib : Library}

/-- **Evaluation outlasts evaluation** of fewer turns and levels that starts as deep or deeper. -/
theorem metered_outlasts {checked checked' : Bool} (hchecked : checked' = true → checked = true)
    {turns turns' : Nat} (hturns : turns ≤ turns') :
      ∀ {levels levels' : Nat}, levels ≤ levels' → ∀ home code fr,
      (outlasts checked checked').Rel (metered lib checked turns levels home code fr)
        (metered lib checked' turns' levels' home code fr)
  | 0, _, _, _, _, _ => outlasts_unfinished _
  | levels + 1, levels' + 1, hle, home, code, fr => by
    have hparts := metered_outlasts hchecked hturns (Nat.le_of_succ_le_succ hle)
    refine outlasts_nested hchecked
      (Simulation.level _ hparts (fun home cond body fr => ?_) home code fr)
    exact Simulation.levelLoop _ (hparts home) cond body (fun _ => outlasts_unfinished)
      (fun hlt => absurd hturns (Nat.not_le.2 hlt)) fr

/-- **Evaluation with the levels that are left is evaluation with a count of levels.** -/
theorem eval_counts :
    ∀ {depth d levels : Nat}, depth = maxDepth - d → depth < levels → ∀ home code fr,
    (counts d).Rel (eval lib depth home code fr) (metered lib true patience levels home code fr)
  | 0, d, levels + 1, hdepth, _, home, code, fr => by
    rintro g r s rfl hends _
    cases hends
    have hbeyond : maxDepth ≤ g.depth := Nat.sub_eq_zero_iff_le.1 hdepth.symm
    exact ⟨g, if_pos ⟨rfl, hbeyond⟩, rfl, rfl⟩
  | depth + 1, d, levels + 1, hdepth, hlt, home, code, fr => by
    have hparts :=
      eval_counts (d := d + 1) (by omega : depth = maxDepth - (d + 1)) (Nat.lt_of_succ_lt_succ hlt)
    rw [eval_succ]
    refine counts_nested (by omega)
      (Simulation.level _ hparts (fun home cond body fr => ?_) home code fr)
    refine Simulation.levelLoop _ (hparts home) cond body (fun _ y => ?_)
      (fun hlt => absurd hlt (Nat.lt_irrefl _)) fr
    intro g r s _ hends hr
    cases hends
    exact absurd rfl hr

theorem levelInvoke_eq (ev : ModuleId → Evaluator) (handle : FunctionHandle) (args : List Value) :
    levelInvoke lib ev handle args = invoke lib ev handle args := rfl

/-! ## Transparency -/

/-- What the count of levels and the check of it come to, for a computation `x` of so many turns and
levels, with the check or without it, and the run `y` that is given the levels that are left. -/
structure Transparent {α : Type} (x : Bool → Nat → Nat → Metered α) (y : Nat → Run α) : Prop where
  /-- The computation ends in one way, if it ends. -/
  unique : ∀ checked g r₁ r₂ g₁ g₂, Ends (x checked) g r₁ g₁ → Ends (x checked) g r₂ g₂ →
    r₁ = r₂ ∧ g₁.store = g₂.store
  /-- However it ends, the count is where it was. -/
  restored : ∀ checked g r g', Ends (x checked) g r g' → g'.depth = g.depth
  /-- With the check, the count does not go beyond the limit. -/
  bounded : ∀ g r g', Ends (x true) g r g' → g'.deepest ≤ max g.deepest maxDepth
  /-- If it does not end beyond the limit, it ends like that without the check, from whatever
  depth. -/
  unchecked :
    ∀ g h r g', h.store = g.store → h.depth ≤ g.depth → Ends (x true) g r g' → r ≠ overflow →
    ∃ h', Ends (x false) h r h' ∧ h'.store = g'.store
  /-- And it ends like that with the check from any depth that is less. -/
  shallower :
    ∀ g h r g', h.store = g.store → h.depth ≤ g.depth → Ends (x true) g r g' → r ≠ overflow →
    ∃ h', Ends (x true) h r h' ∧ h'.store = g'.store
  /-- It ends as the run does, unless that gives up on a loop. -/
  run : ∀ g r g', Ends (x true) g r g' → outcome (y (maxDepth - g.depth) g.store) = (r, g'.store) ∨
    (outcome (y (maxDepth - g.depth) g.store)).1 = .error (.halt .endless)
  /-- And it ends if the run does not give up. -/
  ends : ∀ g r s, outcome (y (maxDepth - g.depth) g.store) = (r, s) → r ≠ .error (.halt .endless) →
    ∃ g', Ends (x true) g r g' ∧ g'.store = s

/-- What outlasts itself, and counts levels as a run is given them, is transparent. -/
theorem transparent_of_outlasts {α : Type} {x : Bool → Nat → Nat → Metered α} {y : Nat → Run α}
    (hx : ∀ checked checked' turns turns' levels levels', (checked' = true → checked = true) →
      turns ≤ turns' →
      levels ≤ levels' →
        (outlasts checked checked').Rel (x checked turns levels) (x checked' turns' levels'))
    (hy : ∀ d, ∃ levels, (counts d).Rel (y (maxDepth - d)) (x true patience levels)) :
    Transparent x y := by
  have hsteady :
      ∀ checked turns levels, (x checked turns levels).Steady checked := fun checked turns levels =>
    (hx checked checked turns turns levels levels id (Nat.le_refl _) (Nat.le_refl _)).1
  -- two ways of ending are compared where both have the turns and levels they take
  have hunique : ∀ checked g r₁ r₂ g₁ g₂, Ends (x checked) g r₁ g₁ → Ends (x checked) g r₂ g₂ →
      r₁ = r₂ ∧ g₁.store = g₂.store := by
    rintro checked g r₁ r₂ g₁ g₂ ⟨turns₁, levels₁, hends₁⟩ ⟨turns₂, levels₂, hends₂⟩
    have hmax := fun turns levels hturns hlevels =>
      hx checked checked turns (max turns₁ turns₂) levels (max levels₁ levels₂) id hturns hlevels
    obtain ⟨h₁, hmax₁, hstore₁, -⟩ :=
      (hmax turns₁ levels₁ (Nat.le_max_left _ _) (Nat.le_max_left _ _)).2 g g r₁ g₁ rfl
        (Nat.le_refl _) hends₁ (.inr ⟨rfl, rfl⟩)
    obtain ⟨h₂, hmax₂, hstore₂, -⟩ :=
      (hmax turns₂ levels₂ (Nat.le_max_right _ _) (Nat.le_max_right _ _)).2 g g r₂ g₂ rfl
        (Nat.le_refl _) hends₂ (.inr ⟨rfl, rfl⟩)
    rw [hmax₁] at hmax₂
    cases hmax₂
    exact ⟨rfl, hstore₁.symm.trans hstore₂⟩
  have hends :
      ∀ g r s, outcome (y (maxDepth - g.depth) g.store) = (r, s) → r ≠ .error (.halt .endless) →
      ∃ g', Ends (x true) g r g' ∧ g'.store = s := by
    intro g r s hrun hr
    obtain ⟨levels, hcounts⟩ := hy g.depth
    obtain ⟨g', hg', hstore, -⟩ := hcounts g r s rfl hrun hr
    exact ⟨g', ⟨_, _, hg'⟩, hstore⟩
  have hoverrun :
      ∀ checked g h r g', h.store = g.store → h.depth ≤ g.depth → Ends (x true) g r g' →
        r ≠ overflow →
      ∃ h', Ends (x checked) h r h' ∧ h'.store = g'.store := by
    rintro checked g h r g' hstore hle ⟨turns, levels, hg'⟩ hr
    obtain ⟨h', hh', hstore', -⟩ :=
      (hx true checked turns turns levels levels (fun _ => rfl) (Nat.le_refl _) (Nat.le_refl _)).2 g
        h r g' hstore hle hg' (.inl hr)
    exact ⟨h', ⟨_, _, hh'⟩, hstore'⟩
  exact {
    unique := hunique
    restored :=
      fun checked g r g' ⟨turns, levels, hg'⟩ => (hsteady checked turns levels g r g' hg').1
    bounded := fun g r g' ⟨turns, levels, hg'⟩ => (hsteady true turns levels g r g' hg').2 rfl
    unchecked := hoverrun false
    shallower := hoverrun true
    run := fun g r g' hg' => by
      by_cases hendless : (outcome (y (maxDepth - g.depth) g.store)).1 = .error (.halt .endless)
      · exact .inr hendless
      · obtain ⟨g₁, hg₁, hstore⟩ := hends g _ _ rfl hendless
        obtain ⟨hr, hstores⟩ := hunique true g _ _ _ _ hg' hg₁
        exact .inl (Prod.ext hr.symm (hstore.symm.trans hstores.symm))
    ends := hends }

theorem metered_transparent (lib : Library) (home : ModuleId) (code : Code) (fr : Frame) :
    Transparent (fun checked turns levels => metered lib checked turns levels home code fr)
      (fun depth => eval lib depth home code fr) :=
  transparent_of_outlasts
    (fun _ _ _ _ _ _ hchecked hturns hlevels =>
      metered_outlasts hchecked hturns hlevels home code fr)
    (fun _ => ⟨_, eval_counts rfl (Nat.lt_succ_self _) home code fr⟩)

theorem meteredCall_transparent (lib : Library) (handle : FunctionHandle) (args : List Value) :
    Transparent (fun checked turns levels => meteredCall lib checked turns levels handle args)
      (fun depth => invoke lib (eval lib depth) handle args) :=
  transparent_of_outlasts
    (fun _ _ _ _ _ _ hchecked hturns hlevels =>
      Simulation.levelInvoke _ (metered_outlasts hchecked hturns hlevels) handle args)
    (fun _ => ⟨_, levelInvoke_eq _ handle args ▸
      Simulation.levelInvoke _ (eval_counts rfl (Nat.lt_succ_self _)) handle args⟩)

/-! ## One call after the other -/

/-- Calls that are made one after the other, and how each of them ended, with what store. -/
inductive InTurn (lib : Library) : Gauge → List (FunctionHandle × List Value) →
    List (Except Stop Value × Store) →
    Gauge → Prop
  | none (g : Gauge) : InTurn lib g [] [] g
  | next {g g₁ g' : Gauge} {handle : FunctionHandle} {args : List Value} {r : Except Stop Value}
      {calls : List (FunctionHandle × List Value)} {ends : List (Except Stop Value × Store)} :
      Ends (fun turns levels => meteredCall lib true turns levels handle args) g r g₁ →
      InTurn lib g₁ calls ends g' →
      InTurn lib g ((handle, args) :: calls) ((r, g₁.store) :: ends) g'

/-- Each of these calls ends as it does by itself with the store that the one before it left, unless
that gives up on a loop. -/
def Independent (lib : Library) : Store → List (FunctionHandle × List Value) →
    List (Except Stop Value × Store) → Prop
  | _, [], [] => True
  | s, (handle, args) :: calls, (r, s') :: ends =>
    (outcome (call lib handle args s) = (r, s') ∨
      (outcome (call lib handle args s)).1 = .error (.halt .endless)) ∧
      Independent lib s' calls ends
  | _, _, _ => False

/-- **A call finds the count where the first one found it**, and so whatever ended beyond the limit
before does not cut it short. -/
theorem InTurn.independent {g g' : Gauge} {calls : List (FunctionHandle × List Value)}
    {ends : List (Except Stop Value × Store)} (h : InTurn lib g calls ends g') :
    g'.depth = g.depth ∧ (g.depth = 0 → Independent lib g.store calls ends) := by
  induction h with
  | none g => exact ⟨rfl, fun _ => trivial⟩
  | @next g g₁ g' handle args r calls ends hcall _ ih =>
    have htransparent := meteredCall_transparent lib handle args
    have hdepth := htransparent.restored true g r g₁ hcall
    refine ⟨ih.1.trans hdepth, fun hzero => ⟨?_, ih.2 (hdepth.trans hzero)⟩⟩
    have hrun := htransparent.run g r g₁ hcall
    rwa [hzero] at hrun

/-- **The limit on depth is transparent**: evaluation leaves the count where it was and keeps it
within the limit, and if it does not end beyond the limit then it ends as it does without the check,
and from any depth that is less. So do calls, and no call is cut short by one before it. -/
theorem depth_transparent (lib : Library) :
    (∀ home code fr,
      Transparent (fun checked turns levels => metered lib checked turns levels home code fr)
      (fun depth => eval lib depth home code fr)) ∧
    (∀ handle args,
      Transparent (fun checked turns levels => meteredCall lib checked turns levels handle args)
      (fun depth => invoke lib (eval lib depth) handle args)) ∧
    ∀ g calls ends g', InTurn lib g calls ends g' →
      g'.depth = g.depth ∧ (g.depth = 0 → Independent lib g.store calls ends) :=
  ⟨metered_transparent lib, meteredCall_transparent lib, fun _ _ _ _ h => h.independent⟩

end Kiln
