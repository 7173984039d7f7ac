import Kiln.Machine.Eval
/-!
# One level of evaluation

What evaluation does with a piece of code, given how its parts are evaluated, can be said in any
monad that runs can be lifted to (`level`). Evaluation is that, level upon level (`eval_succ`). A
relation of computations in two monads that goes through their steps (`Simulation`) goes through a
whole level, if it holds of how the parts are evaluated (`Simulation.level`): this is where the
forms of code are told apart, once for all that is shown of them in this way.
-/

namespace Kiln

/-! ## Levels -/

section Level

variable {m : Type → Type} [Monad m] [MonadLiftT Run m]

/-- Evaluates code one after the other, for the values. -/
def levelAll (ev : Code → Frame → m (Value × Frame)) : List Code → Frame → m (List Value × Frame)
  | [], fr => pure ([], fr)
  | c :: cs, fr => do
    let (v, fr) ← ev c fr
    let (vs, fr) ← levelAll ev cs fr
    pure (v :: vs, fr)

/-- Evaluates code one after the other, for the last value. -/
def levelBlock (ev : Code → Frame → m (Value × Frame)) (last : Value) :
    List Code → Frame → m (Value × Frame)
  | [], fr => pure (last, fr)
  | c :: cs, fr => do
    let (v, fr) ← ev c fr
    levelBlock ev v cs fr

/-- Evaluates code for a truth value. -/
def levelTest (ev : Code → Frame → m (Value × Frame)) (c : Code) (fr : Frame) :
    m (Bool × Frame) := do
  let (v, fr) ← ev c fr
  pure (← (Run.lift v.asBool : Run Bool), fr)

/-- Evaluates the body for as long as the condition holds; `spent` is what comes after so many
turns. -/
def levelLoop (ev : Code → Frame → m (Value × Frame)) (spent : m Frame) (cond body : Code) :
    Nat → Frame → m Frame
  | 0, _ => spent
  | n + 1, fr => do
    let (go, fr) ← levelTest ev cond fr
    if go then
      let (_, fr) ← ev body fr
      levelLoop ev spent cond body n fr
    else pure fr

/-- Calls a function; `ev` runs the code of its module. -/
def levelInvoke (lib : Library) (ev : ModuleId → Code → Frame → m (Value × Frame))
    (handle : FunctionHandle) (args : List Value) : m Value := do
  let f ← (Run.present (lib.function? handle) : Run Function)
  if args.length ≠ f.params.length then
    (Run.fail (.arity f.name f.params.length args.length) : Run Value)
  else match f.body with
    | .native op => (op.run args : Run Value)
    | .code slots code =>
      let fr := args ++ List.replicate (slots - args.length) .unit
      return (← ev handle.home code fr).1

/-- Runs code of the module `home` in a frame; `ev` runs the parts of it and the bodies of
functions, `loop` its loops. -/
def level (lib : Library) (ev : ModuleId → Code → Frame → m (Value × Frame))
    (loop : (Code → Frame → m (Value × Frame)) → Code → Code → Frame → m Frame)
    (home : ModuleId) (code : Code) (fr : Frame) : m (Value × Frame) :=
  match code with
  | .const v => pure (v, fr)
  | .getLocal slot => do pure (← (Run.present fr[slot]? : Run Value), fr)
  | .setLocal slot value => do
    let (v, fr) ← ev home value fr
    if slot < fr.length then pure (.unit, fr.set slot v)
    else (Run.halt .stray : Run (Value × Frame))
  | .getGlobal index => do
    let s ← (get : Run Store)
    pure (← (Run.present (s.global? home index) : Run Value), fr)
  | .setGlobal index value => do
    let (v, fr) ← ev home value fr
    (modify (·.setGlobal home index v) : Run Unit)
    pure (.unit, fr)
  | .foreignGlobal other index => do
    let s ← (get : Run Store)
    pure (← (Run.present (s.global? other index) : Run Value), fr)
  | .block items => levelBlock (ev home) .unit items fr
  | .branch cond onTrue onFalse => do
    let (go, fr) ← levelTest (ev home) cond fr
    if go then ev home onTrue fr
    else match onFalse with
      | some other => ev home other fr
      | none => pure (.unit, fr)
  | .loop cond body => do pure (.unit, ← loop (ev home) cond body fr)
  | .binary op left right => do
    let (a, fr) ← ev home left fr
    let (b, fr) ← ev home right fr
    pure (← (Run.lift (op.apply a b) : Run Value), fr)
  | .not value => do
    let (b, fr) ← levelTest (ev home) value fr
    pure (.bool !b, fr)
  | .and left right => do
    let (a, fr) ← levelTest (ev home) left fr
    if a then
      let (b, fr) ← levelTest (ev home) right fr
      pure (.bool b, fr)
    else pure (.bool false, fr)
  | .or left right => do
    let (a, fr) ← levelTest (ev home) left fr
    if a then pure (.bool true, fr)
    else
      let (b, fr) ← levelTest (ev home) right fr
      pure (.bool b, fr)
  | .call callee args => do
    let (values, fr) ← levelAll (ev home) args fr
    let handle := match callee with
      | .own index => ⟨home, index⟩
      | .foreign other index => ⟨other, index⟩
    pure (← levelInvoke lib ev handle values, fr)
  | .fieldPtr base offset target => do
    let (v, fr) ← ev home base fr
    let (addr, _) ← (Run.lift v.asPtr : Run (UInt64 × Ty))
    pure (.ptr (addr + offset) target, fr)
  | .fieldGet base index => do
    let (v, fr) ← ev home base fr
    pure (← (Run.lift (v.fieldAt index) : Run Value), fr)
  | .make type fields => do
    let (vs, fr) ← levelAll (ev home) fields fr
    pure (.struct type vs, fr)
  | .load ptr type => do
    let (v, fr) ← ev home ptr fr
    let (addr, _) ← (Run.lift v.asPtr : Run (UInt64 × Ty))
    let s ← (get : Run Store)
    let bytes ← (Run.lift (s.heap.read addr (type.size lib.layouts)) : Run (List UInt8))
    pure (← (Run.lift (Value.decode lib.layouts type bytes) : Run Value), fr)
  | .store ptr value type => do
    let (p, fr) ← ev home ptr fr
    let (v, fr) ← ev home value fr
    let bytes ← (Run.lift (v.encode lib.layouts type) : Run (List UInt8))
    let (addr, _) ← (Run.lift p.asPtr : Run (UInt64 × Ty))
    (Run.updateHeap (·.write addr bytes) : Run Unit)
    pure (.unit, fr)
  | .cast value type => do
    let (v, fr) ← ev home value fr
    pure (← (Run.lift (v.cast type) : Run Value), fr)
  | .offset ptr count stride => do
    let (p, fr) ← ev home ptr fr
    let (c, fr) ← ev home count fr
    let n ← (Run.lift c.asInt : Run Int64)
    let (addr, target) ← (Run.lift p.asPtr : Run (UInt64 × Ty))
    pure (.ptr (strideFrom addr n stride) target, fr)
  | .addr ptr => do
    let (p, fr) ← ev home ptr fr
    let (addr, _) ← (Run.lift p.asPtr : Run (UInt64 × Ty))
    pure (.int addr.toInt64, fr)
  | .seqLit elem items => do
    let (vs, fr) ← levelAll (ev home) items fr
    pure (← (Run.lift (Value.ofItems lib.layouts elem vs) : Run Value), fr)
  | .seqLen seq => do
    let (v, fr) ← ev home seq fr
    let (len, _) ← (Run.lift v.asSeq : Run (UInt64 × List UInt8))
    pure (.int len.toInt64, fr)
  | .seqCopy dst seq => do
    let (p, fr) ← ev home dst fr
    let (v, fr) ← ev home seq fr
    let (addr, _) ← (Run.lift p.asPtr : Run (UInt64 × Ty))
    let (_, bytes) ← (Run.lift v.asSeq : Run (UInt64 × List UInt8))
    (Run.updateHeap (·.write addr bytes) : Run Unit)
    pure (.unit, fr)

end Level

/-! ## Evaluation by levels -/

variable {lib : Library}

theorem levelAll_eq (ev : Evaluator) : levelAll ev = evalAll ev := by
  funext cs
  induction cs with
  | nil => rfl
  | cons c cs ih =>
    funext fr
    rw [levelAll, evalAll, ih]

theorem levelBlock_eq (ev : Evaluator) (last : Value) : levelBlock ev last = evalBlock ev last := by
  funext cs
  induction cs generalizing last with
  | nil => rfl
  | cons c cs ih =>
    funext fr
    rw [levelBlock, evalBlock]
    simp only [ih]

theorem levelLoop_eq (ev : Evaluator) (cond body : Code) (n : Nat) :
    levelLoop ev (Run.halt .endless) cond body n = evalLoop ev cond body n := by
  induction n with
  | zero => rfl
  | succ n ih =>
    funext fr
    rw [levelLoop, evalLoop, ih]
    rfl

/-- **Evaluation takes a level off the depth**, and does with the code what a level does. -/
theorem eval_succ (depth : Nat) (home : ModuleId) (code : Code) (fr : Frame) :
    eval lib (depth + 1) home code fr =
    level lib (eval lib depth)
      (fun ev cond body => levelLoop ev (Run.halt .endless) cond body patience) home code
      fr := by
  unfold level
  cases code with
  | block items => dsimp only; rw [levelBlock_eq]; rfl
  | loop cond body => dsimp only; rw [levelLoop_eq]; rfl
  | call | make | seqLit => dsimp only; rw [levelAll_eq]; rfl
  | _ => rfl

/-! ## Simulations -/

/-- A relation of computations in two monads that holds of what does nothing and of runs, and goes
through steps. -/
structure Simulation (m m' : Type → Type) [Monad m] [Monad m'] [MonadLiftT Run m]
    [MonadLiftT Run m'] where
  /-- The computations are related. -/
  Rel : {α : Type} → m α → m' α → Prop
  pure : ∀ {α : Type} (a : α), Rel (pure a) (pure a)
  lift : ∀ {α : Type} (x : Run α), Rel (liftM x) (liftM x)
  bind :
    ∀ {α β : Type} {x : m α} {y : m' α} {f : α → m β} {g : α → m' β}, Rel x y →
      (∀ a, Rel (f a) (g a)) →
    Rel (x >>= f) (y >>= g)

namespace Simulation

variable {m m' : Type → Type} [Monad m] [Monad m'] [MonadLiftT Run m] [MonadLiftT Run m']
  (S : Simulation m m')

section Parts

variable {ev : Code → Frame → m (Value × Frame)} {ev' : Code → Frame → m' (Value × Frame)}

theorem levelAll (h : ∀ c fr, S.Rel (ev c fr) (ev' c fr)) :
    ∀ cs fr, S.Rel (levelAll ev cs fr) (levelAll ev' cs fr)
  | [], _ => S.pure _
  | c :: cs, fr => S.bind (h c fr) fun _ => S.bind (levelAll h cs _) fun _ => S.pure _

theorem levelBlock (h : ∀ c fr, S.Rel (ev c fr) (ev' c fr)) :
    ∀ cs last fr, S.Rel (levelBlock ev last cs fr) (levelBlock ev' last cs fr)
  | [], _, _ => S.pure _
  | c :: cs, _, fr => S.bind (h c fr) fun _ => levelBlock h cs _ _

theorem levelTest (h : ∀ c fr, S.Rel (ev c fr) (ev' c fr)) (c : Code) (fr : Frame) :
    S.Rel (levelTest ev c fr) (levelTest ev' c fr) :=
  S.bind (h c fr) fun _ => S.bind (S.lift _) fun _ => S.pure _

/-- Loops are related though one of them may make more turns, if giving up is related to everything
else. -/
theorem levelLoop {spent : m Frame} {spent' : m' Frame} (h : ∀ c fr, S.Rel (ev c fr) (ev' c fr))
    (cond body : Code) {n n' : Nat} (hspent : n ≤ n' → ∀ y, S.Rel spent y)
    (hspent' : n' < n → ∀ x, S.Rel x spent') (fr : Frame) :
    S.Rel (levelLoop ev spent cond body n fr) (levelLoop ev' spent' cond body n' fr) := by
  induction n generalizing n' fr with
  | zero => exact hspent (Nat.zero_le n') _
  | succ n ih =>
    cases n' with
    | zero => exact hspent' (Nat.succ_pos n) _
    | succ n' =>
      refine S.bind (S.levelTest h cond fr) fun ⟨go, fr⟩ => ?_
      dsimp only
      split
      · refine S.bind (h body fr) fun _ => ?_
        exact ih (fun hle => hspent (Nat.succ_le_succ hle))
          (fun hlt => hspent' (Nat.succ_lt_succ hlt)) _
      · exact S.pure _

end Parts

variable {lib : Library} {ev : ModuleId → Code → Frame → m (Value × Frame)}
  {ev' : ModuleId → Code → Frame → m' (Value × Frame)}

theorem levelInvoke (h : ∀ home c fr, S.Rel (ev home c fr) (ev' home c fr))
    (handle : FunctionHandle) (args : List Value) :
    S.Rel (levelInvoke lib ev handle args) (levelInvoke lib ev' handle args) := by
  refine S.bind (S.lift _) fun f => ?_
  split
  · exact S.lift _
  · split
    · exact S.lift _
    · exact S.bind (h _ _ _) fun _ => S.pure _

/-- **A simulation goes through a level**, if it holds of the parts and of loops of them. -/
theorem level {loop : (Code → Frame → m (Value × Frame)) → Code → Code → Frame → m Frame}
    {loop' : (Code → Frame → m' (Value × Frame)) → Code → Code → Frame → m' Frame}
    (h : ∀ home c fr, S.Rel (ev home c fr) (ev' home c fr))
    (hloop : ∀ home cond body fr,
      S.Rel (loop (ev home) cond body fr) (loop' (ev' home) cond body fr))
    (home : ModuleId) (code : Code) (fr : Frame) :
    S.Rel (level lib ev loop home code fr) (level lib ev' loop' home code fr) := by
  unfold Kiln.level
  cases code with
  | const v => exact S.pure _
  | getLocal slot => exact S.bind (S.lift _) fun _ => S.pure _
  | setLocal slot value =>
    refine S.bind (h home value fr) fun _ => ?_
    dsimp only
    split
    · exact S.pure _
    · exact S.lift _
  | getGlobal | foreignGlobal =>
    exact S.bind (S.lift _) fun _ => S.bind (S.lift _) fun _ => S.pure _
  | setGlobal index value =>
    exact S.bind (h home value fr) fun _ => S.bind (S.lift _) fun _ => S.pure _
  | block items => exact S.levelBlock (h home) items _ fr
  | branch cond onTrue onFalse =>
    refine S.bind (S.levelTest (h home) cond fr) fun _ => ?_
    dsimp only
    split
    · exact h home onTrue _
    · split
      · exact h home _ _
      · exact S.pure _
  | loop cond body => exact S.bind (hloop home cond body fr) fun _ => S.pure _
  | binary op left right =>
    exact S.bind (h home left fr)
      fun _ => S.bind (h home right _) fun _ => S.bind (S.lift _) fun _ => S.pure _
  | not value => exact S.bind (S.levelTest (h home) value fr) fun _ => S.pure _
  | and left right =>
    refine S.bind (S.levelTest (h home) left fr) fun _ => ?_
    dsimp only
    split
    · exact S.bind (S.levelTest (h home) right _) fun _ => S.pure _
    · exact S.pure _
  | or left right =>
    refine S.bind (S.levelTest (h home) left fr) fun _ => ?_
    dsimp only
    split
    · exact S.pure _
    · exact S.bind (S.levelTest (h home) right _) fun _ => S.pure _
  | call callee args =>
    exact S.bind (S.levelAll (h home) args fr)
      fun _ => S.bind (S.levelInvoke h _ _) fun _ => S.pure _
  | make type fields => exact S.bind (S.levelAll (h home) fields fr) fun _ => S.pure _
  | seqLit elem items =>
    exact S.bind (S.levelAll (h home) items fr) fun _ => S.bind (S.lift _) fun _ => S.pure _
  | fieldPtr part | fieldGet part | cast part | addr part | seqLen part =>
    exact S.bind (h home part fr) fun _ => S.bind (S.lift _) fun _ => S.pure _
  | load ptr type =>
    refine S.bind (h home ptr fr) fun _ => S.bind (S.lift _) fun _ => ?_
    exact S.bind (S.lift _) fun _ => S.bind (S.lift _) fun _ => S.bind (S.lift _) fun _ => S.pure _
  | offset ptr count stride =>
    refine S.bind (h home ptr fr) fun _ => S.bind (h home count _) fun _ => ?_
    exact S.bind (S.lift _) fun _ => S.bind (S.lift _) fun _ => S.pure _
  | store left right | seqCopy left right =>
    refine S.bind (h home left fr) fun _ => S.bind (h home right _) fun _ => ?_
    exact S.bind (S.lift _) fun _ => S.bind (S.lift _) fun _ => S.bind (S.lift _) fun _ => S.pure _

end Simulation

end Kiln
