import Kiln.Machine.Eval
/-!
# Runs that follow each other

A run `x` follows a run `y` when, from every store, it ends as `y` does: with the same
store, and with the same stop or with a value that is related to that of `y`. Only where
`x` is cut short because it nests too deep may `y` do as it likes. `Follows.bind` takes
such pairs of runs apart.

Code that is given more depth does the same, unless it ran out of depth before
(`eval_follows`); so the depth decides only how far a run comes.
-/

namespace Kiln

/-- The ends of two runs, of which the first may have been cut short for its depth. -/
inductive SameEnd {α β : Type} (R : α → β → Prop) :
    EStateM.Result Stop Store α → EStateM.Result Stop Store β → Prop
  | value {a : α} {b : β} {s : Store} : R a b → SameEnd R (.ok a s) (.ok b s)
  | stop {e : Stop} {s : Store} : SameEnd R (.error e s) (.error e s)
  | tooDeep {limit : Nat} {s : Store} {end_ : EStateM.Result Stop Store β} :
      SameEnd R (.error (.fault (.tooDeep limit)) s) end_

namespace Run

/-- From every store, `x` ends as `y` does, unless it nests too deep. -/
def Follows {α β : Type} (R : α → β → Prop) (x : Run α) (y : Run β) : Prop :=
  ∀ s, SameEnd R (x s) (y s)

namespace Follows

variable {α β γ δ : Type} {R : α → β → Prop} {S : γ → δ → Prop}

theorem pure {a : α} {b : β} (h : R a b) : Follows R (pure a) (pure b) := fun _ => .value h

theorem throw (e : Stop) : Follows R (throw e) (throw e) := fun _ => .stop

/-- A run that nests too deep follows every run. -/
theorem tooDeep {limit : Nat} {y : Run β} : Follows R (fail (.tooDeep limit)) y :=
  fun _ => .tooDeep

/-- **Runs follow each other step by step.** -/
theorem bind {x : Run α} {y : Run β} {f : α → Run γ} {g : β → Run δ} (hx : Follows R x y)
    (hf : ∀ a b, R a b → Follows S (f a) (g b)) : Follows S (x >>= f) (y >>= g) := by
  intro s
  have hend := hx s
  show SameEnd S (EStateM.bind x f s) (EStateM.bind y g s)
  unfold EStateM.bind
  generalize x s = ex at hend
  generalize y s = ey at hend
  cases hend with
  | value h => exact hf _ _ h _
  | stop => exact .stop
  | tooDeep => exact .tooDeep

theorem refl (x : Run α) : Follows Eq x x := by
  intro s
  rcases x s with ⟨a, s'⟩ | ⟨e, s'⟩
  · exact .value rfl
  · exact .stop

/-- Step by step again, where the first steps end with the same value. -/
theorem bind_eq {x y : Run α} {f : α → Run γ} {g : α → Run δ} (hx : Follows Eq x y)
    (hf : ∀ a, Follows S (f a) (g a)) : Follows S (x >>= f) (y >>= g) :=
  hx.bind fun a _ h => h ▸ hf a

end Follows

end Run

/-! ## More depth changes nothing else -/

section Depth

variable {lib : Library} {ev ev' : Evaluator}

theorem evalAll_follows (h : ∀ c fr, Run.Follows Eq (ev c fr) (ev' c fr)) :
    ∀ cs fr, Run.Follows Eq (evalAll ev cs fr) (evalAll ev' cs fr)
  | [], _ => .pure rfl
  | c :: cs, fr => by
    refine (h c fr).bind_eq fun _ => ?_
    refine (evalAll_follows h cs _).bind_eq fun _ => ?_
    exact .refl _

theorem evalBlock_follows (h : ∀ c fr, Run.Follows Eq (ev c fr) (ev' c fr)) :
    ∀ cs last fr, Run.Follows Eq (evalBlock ev last cs fr) (evalBlock ev' last cs fr)
  | [], _, _ => .pure rfl
  | c :: cs, _, fr => by
    refine (h c fr).bind_eq fun _ => ?_
    exact evalBlock_follows h cs _ _

theorem evalTest_follows (h : ∀ c fr, Run.Follows Eq (ev c fr) (ev' c fr)) (c : Code) (fr : Frame) :
    Run.Follows Eq (evalTest ev c fr) (evalTest ev' c fr) := by
  refine (h c fr).bind_eq fun _ => ?_
  exact .refl _

theorem evalLoop_follows (h : ∀ c fr, Run.Follows Eq (ev c fr) (ev' c fr)) (cond body : Code) :
    ∀ n fr, Run.Follows Eq (evalLoop ev cond body n fr) (evalLoop ev' cond body n fr)
  | 0, _ => .refl _
  | n + 1, fr => by
    refine (evalTest_follows h cond fr).bind_eq fun _ => ?_
    dsimp only
    split
    · refine (h body _).bind_eq fun _ => ?_
      exact evalLoop_follows h cond body n _
    · exact .refl _

theorem invoke_follows {run run' : ModuleId → Evaluator}
    (h : ∀ home c fr, Run.Follows Eq (run home c fr) (run' home c fr)) (handle : FunctionHandle)
    (args : List Value) :
    Run.Follows Eq (invoke lib run handle args) (invoke lib run' handle args) := by
  refine .bind_eq (.refl _) fun f => ?_
  split
  · exact .refl _
  · split
    · exact .refl _
    · refine (h _ _ _).bind_eq fun _ => ?_
      exact .refl _

/-- **Code that is given more depth does the same**, unless it ran out of depth before. -/
theorem eval_follows : ∀ {depth depth' : Nat}, depth ≤ depth' → ∀ home code fr,
    Run.Follows Eq (eval lib depth home code fr) (eval lib depth' home code fr)
  | 0, _, _, _, _, _ => .tooDeep
  | depth + 1, depth' + 1, hle, home, code, fr => by
    have h := fun home => eval_follows (Nat.le_of_succ_le_succ hle) home
    unfold eval
    cases code with
    | const v => exact .refl _
    | getLocal slot => exact .refl _
    | setLocal slot value =>
      refine (h home value fr).bind_eq fun _ => ?_
      exact .refl _
    | getGlobal index => exact .refl _
    | setGlobal index value =>
      refine (h home value fr).bind_eq fun _ => ?_
      exact .refl _
    | foreignGlobal other index => exact .refl _
    | block items => exact evalBlock_follows (h home) items _ fr
    | branch cond onTrue onFalse =>
      refine (evalTest_follows (h home) cond fr).bind_eq fun _ => ?_
      dsimp only
      split
      · exact h home onTrue _
      · split
        · exact h home _ _
        · exact .refl _
    | loop cond body =>
      refine (evalLoop_follows (h home) cond body patience fr).bind_eq fun _ => ?_
      exact .refl _
    | binary op left right =>
      refine (h home left fr).bind_eq fun _ => ?_
      refine (h home right _).bind_eq fun _ => ?_
      exact .refl _
    | not value =>
      refine (evalTest_follows (h home) value fr).bind_eq fun _ => ?_
      exact .refl _
    | and left right =>
      refine (evalTest_follows (h home) left fr).bind_eq fun _ => ?_
      dsimp only
      split
      · refine (evalTest_follows (h home) right _).bind_eq fun _ => ?_
        exact .refl _
      · exact .refl _
    | or left right =>
      refine (evalTest_follows (h home) left fr).bind_eq fun _ => ?_
      dsimp only
      split
      · exact .refl _
      · refine (evalTest_follows (h home) right _).bind_eq fun _ => ?_
        exact .refl _
    | call callee args =>
      refine (evalAll_follows (h home) args fr).bind_eq fun _ => ?_
      refine (invoke_follows h _ _).bind_eq fun _ => ?_
      exact .refl _
    | fieldPtr base offset target =>
      refine (h home base fr).bind_eq fun _ => ?_
      exact .refl _
    | fieldGet base index =>
      refine (h home base fr).bind_eq fun _ => ?_
      exact .refl _
    | make type fields =>
      refine (evalAll_follows (h home) fields fr).bind_eq fun _ => ?_
      exact .refl _
    | load ptr type =>
      refine (h home ptr fr).bind_eq fun _ => ?_
      exact .refl _
    | store ptr value type =>
      refine (h home ptr fr).bind_eq fun _ => ?_
      refine (h home value _).bind_eq fun _ => ?_
      exact .refl _
    | cast value type =>
      refine (h home value fr).bind_eq fun _ => ?_
      exact .refl _
    | offset ptr count stride =>
      refine (h home ptr fr).bind_eq fun _ => ?_
      refine (h home count _).bind_eq fun _ => ?_
      exact .refl _
    | addr ptr =>
      refine (h home ptr fr).bind_eq fun _ => ?_
      exact .refl _
    | seqLit elem items =>
      refine (evalAll_follows (h home) items fr).bind_eq fun _ => ?_
      exact .refl _
    | seqLen seq =>
      refine (h home seq fr).bind_eq fun _ => ?_
      exact .refl _
    | seqCopy dst seq =>
      refine (h home dst fr).bind_eq fun _ => ?_
      refine (h home seq _).bind_eq fun _ => ?_
      exact .refl _

end Depth

end Kiln
