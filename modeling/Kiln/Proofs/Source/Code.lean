import Kiln.Proofs.Source.Slots
/-!
# Code that does what expressions do

`Compiles` says that code, run at any depth up to a bound, tracks a run on the variables.
For each form of code there is a lemma that builds this from what holds of the parts of
the code; most forms make something of the values of their parts, and fall under
`Compiles.map`, `Compiles.map₂` and `Compiles.mapAll`.
-/

namespace Kiln

namespace Source

variable {lib : Library} {home : ModuleId} {limit : Nat} {O : List Variable}

/-- At any depth up to the limit, the code does to the frame what `run` does to the
variables. -/
def Compiles (lib : Library) (home : ModuleId) (limit : Nat) (O : List Variable) (code : Code)
    (run : Variables → Run (Value × Variables)) : Prop :=
  ∀ depth ≤ limit, Tracks O (eval lib depth home code) run

/-- The same, for code for a truth value. -/
def Tests (lib : Library) (home : ModuleId) (limit : Nat) (O : List Variable) (code : Code)
    (test : Variables → Run (Bool × Variables)) : Prop :=
  ∀ depth ≤ limit, Tracks O (evalTest (eval lib depth home) code) test

/-- The same, for code that follows each other. -/
inductive CompilesAll (lib : Library) (home : ModuleId) (limit : Nat) (O : List Variable) :
    List Code → List Expr → Scopes → Prop
  | nil {sc : Scopes} : CompilesAll lib home limit O [] [] sc
  | cons {c : Code} {cs : List Code} {e : Expr} {es : List Expr} {sc : Scopes} :
      Compiles lib home limit O c (e.run sc) → CompilesAll lib home limit O cs es (e.after sc) →
      CompilesAll lib home limit O (c :: cs) (e :: es) sc

variable {code c d : Code} {cs : List Code} {e e' : Expr} {es : List Expr} {sc : Scopes}
  {run run' : Variables → Run (Value × Variables)} {test test' : Variables → Run (Bool × Variables)}

/-- At no depth there is nothing to show. -/
theorem Compiles.of_step
    (h : ∀ depth < limit, Tracks O (eval lib (depth + 1) home code) run) :
    Compiles lib home limit O code run
  | 0, _, _ => .tooDeep
  | depth + 1, hle, σ => h depth hle σ

theorem Compiles.tests (h : Compiles lib home limit O c run) :
    Tests lib home limit O c (fun σ => do
      let (v, σ) ← run σ
      pure (← Run.lift v.asBool, σ)) :=
  fun depth hle σ => step (h depth hle σ) fun v σ => finish (Run.lift v.asBool) σ

theorem Compiles.truth (h : Compiles lib home limit O c (e.run sc)) :
    Tests lib home limit O c (e.truth sc) := h.tests

/-! ## Parts, one after the other -/

theorem CompilesAll.evalAll : ∀ {cs : List Code} {es : List Expr} {sc : Scopes},
    CompilesAll lib home limit O cs es sc → ∀ depth ≤ limit,
      Tracks O (evalAll (eval lib depth home) cs) (Expr.runAll es sc)
  | _, _, _, .nil, _, _, σ => Agree.pure [] σ
  | _, _, _, .cons h hs, depth, hle, σ => by
    refine step (h depth hle σ) fun v σ => ?_
    refine step (hs.evalAll depth hle σ) fun vs σ => ?_
    exact Agree.pure (v :: vs) σ

theorem CompilesAll.evalBlock : ∀ {cs : List Code} {es : List Expr} {sc : Scopes},
    CompilesAll lib home limit O cs es sc → ∀ depth ≤ limit, ∀ last,
      Tracks O (evalBlock (eval lib depth home) last cs) (Expr.runLast last es sc)
  | _, _, _, .nil, _, _, last, σ => Agree.pure last σ
  | _, _, _, .cons h hs, depth, hle, _, σ =>
    step (h depth hle σ) fun v σ => hs.evalBlock depth hle v σ

theorem Compiles.block (h : CompilesAll lib home limit O cs es sc) :
    Compiles lib home limit O (.block cs) (Expr.runLast .unit es sc) :=
  .of_step fun depth hlt σ => h.evalBlock depth (Nat.le_of_lt hlt) .unit σ

/-! ## Values made of values -/

/-- Code that makes something of the value of one part. -/
theorem Compiles.map {f : Value → Run Value} (h : Compiles lib home limit O c run)
    (heval : ∀ depth fr, eval lib (depth + 1) home code fr = (do
      let (v, fr) ← eval lib depth home c fr
      pure (← f v, fr))) :
    Compiles lib home limit O code (fun σ => do
      let (v, σ) ← run σ
      pure (← f v, σ)) :=
  .of_step fun depth hlt σ => by
    rw [heval]
    exact step (h depth (Nat.le_of_lt hlt) σ) fun v σ => finish (f v) σ

/-- Code that makes something of the values of two parts. -/
theorem Compiles.map₂ {f : Value → Value → Run Value} (h : Compiles lib home limit O c run)
    (h' : Compiles lib home limit O d run')
    (heval : ∀ depth fr, eval lib (depth + 1) home code fr = (do
      let (v, fr) ← eval lib depth home c fr
      let (w, fr) ← eval lib depth home d fr
      pure (← f v w, fr))) :
    Compiles lib home limit O code (fun σ => do
      let (v, σ) ← run σ
      let (w, σ) ← run' σ
      pure (← f v w, σ)) :=
  .of_step fun depth hlt σ => by
    rw [heval]
    refine step (h depth (Nat.le_of_lt hlt) σ) fun v σ => ?_
    exact step (h' depth (Nat.le_of_lt hlt) σ) fun w σ => finish (f v w) σ

/-- Code that makes something of the values of all its parts. -/
theorem Compiles.mapAll {f : List Value → Run Value} (h : CompilesAll lib home limit O cs es sc)
    (heval : ∀ depth fr, eval lib (depth + 1) home code fr = (do
      let (vs, fr) ← Kiln.evalAll (eval lib depth home) cs fr
      pure (← f vs, fr))) :
    Compiles lib home limit O code (fun σ => do
      let (vs, σ) ← Expr.runAll es sc σ
      pure (← f vs, σ)) :=
  .of_step fun depth hlt σ => by
    rw [heval]
    exact step (h.evalAll depth (Nat.le_of_lt hlt) σ) fun vs σ => finish (f vs) σ

theorem Compiles.const (v : Value) :
    Compiles lib home limit O (.const v) (fun σ => pure (v, σ)) :=
  .of_step fun _ _ σ => Agree.pure v σ

/-! ## The forms of code -/

section Parts

variable (h : Compiles lib home limit O c run) (h' : Compiles lib home limit O d run')

include h

theorem Compiles.load (t : Ty) :
    Compiles lib home limit O (.load c t) (fun σ => do
      let (v, σ) ← run σ
      pure (← readAt lib.layouts t v, σ)) :=
  h.map fun _ _ => by simp only [eval, readAt, bind_assoc]

theorem Compiles.fieldPtr (offset : UInt64) (t : Ty) :
    Compiles lib home limit O (.fieldPtr c offset t) (fun σ => do
      let (v, σ) ← run σ
      pure (← fieldAt offset t v, σ)) :=
  h.map fun _ _ => by simp only [eval, fieldAt, bind_assoc, pure_bind]

theorem Compiles.fieldGet (index : Nat) :
    Compiles lib home limit O (.fieldGet c index) (fun σ => do
      let (v, σ) ← run σ
      pure (← Run.lift (v.fieldAt index), σ)) :=
  h.map (f := fun v => Run.lift (v.fieldAt index)) fun _ _ => by simp only [eval]

theorem Compiles.cast (t : Ty) :
    Compiles lib home limit O (.cast c t) (fun σ => do
      let (v, σ) ← run σ
      pure (← Run.lift (v.cast t), σ)) :=
  h.map (f := fun v => Run.lift (v.cast t)) fun _ _ => by simp only [eval]

theorem Compiles.addr :
    Compiles lib home limit O (.addr c) (fun σ => do
      let (v, σ) ← run σ
      pure (← addressOf v, σ)) :=
  h.map fun _ _ => by simp only [eval, addressOf, bind_assoc, pure_bind]

theorem Compiles.seqLen :
    Compiles lib home limit O (.seqLen c) (fun σ => do
      let (v, σ) ← run σ
      pure (← lengthOf v, σ)) :=
  h.map fun _ _ => by simp only [eval, lengthOf, bind_assoc, pure_bind]

theorem Compiles.negative :
    Compiles lib home limit O (.binary .sub (.const (.int 0)) c) (fun σ => do
      let (v, σ) ← run σ
      pure (← Run.lift (BinaryOp.sub.apply (.int 0) v), σ)) :=
  (Compiles.const (.int 0)).map₂ (f := fun v w => Run.lift (BinaryOp.sub.apply v w)) h fun _ _ => by
    simp only [eval]

include h'

theorem Compiles.binary (op : BinaryOp) :
    Compiles lib home limit O (.binary op c d) (fun σ => do
      let (v, σ) ← run σ
      let (w, σ) ← run' σ
      pure (← Run.lift (op.apply v w), σ)) :=
  h.map₂ h' (f := fun v w => Run.lift (op.apply v w)) fun _ _ => by simp only [eval]

theorem Compiles.store (t : Ty) :
    Compiles lib home limit O (.store c d t) (fun σ => do
      let (v, σ) ← run σ
      let (w, σ) ← run' σ
      pure (← writeAt lib.layouts t v w, σ)) :=
  h.map₂ h' fun _ _ => by simp only [eval, writeAt, bind_assoc, pure_bind]

theorem Compiles.offset (stride : UInt64) :
    Compiles lib home limit O (.offset c d stride) (fun σ => do
      let (v, σ) ← run σ
      let (w, σ) ← run' σ
      pure (← strideBy stride v w, σ)) :=
  h.map₂ h' fun _ _ => by simp only [eval, strideBy, bind_assoc, pure_bind]

theorem Compiles.seqCopy :
    Compiles lib home limit O (.seqCopy c d) (fun σ => do
      let (v, σ) ← run σ
      let (w, σ) ← run' σ
      pure (← copyTo v w, σ)) :=
  h.map₂ h' fun _ _ => by simp only [eval, copyTo, bind_assoc, pure_bind]

end Parts

section Lists

variable (h : CompilesAll lib home limit O cs es sc)

include h

theorem Compiles.make (ref : StructRef) :
    Compiles lib home limit O (.make ref cs) (fun σ => do
      let (vs, σ) ← Expr.runAll es sc σ
      pure (← pure (.struct ref vs), σ)) :=
  .mapAll h (f := fun vs => pure (.struct ref vs)) fun _ _ => by simp only [eval, pure_bind]

theorem Compiles.seqLit (t : Ty) :
    Compiles lib home limit O (.seqLit t cs) (fun σ => do
      let (vs, σ) ← Expr.runAll es sc σ
      pure (← Run.lift (Value.ofItems lib.layouts t vs), σ)) :=
  .mapAll h (f := fun vs => Run.lift (Value.ofItems lib.layouts t vs))
    fun _ _ => by simp only [eval]

/-- A call does what the function is known to do at every smaller depth. -/
theorem Compiles.call {callee : Kiln.Callee} {handle : FunctionHandle} {f : List Value → Run Value}
    (hhandle : (match callee with
      | .own index => ⟨home, index⟩
      | .foreign other index => ⟨other, index⟩ : FunctionHandle) = handle)
    (hf : ∀ depth < limit, ∀ vs, Run.Follows Eq (invoke lib (eval lib depth) handle vs) (f vs)) :
    Compiles lib home limit O (.call callee cs) (fun σ => do
      let (vs, σ) ← Expr.runAll es sc σ
      pure (← f vs, σ)) :=
  .of_step fun depth hlt σ => by
    subst hhandle
    unfold eval
    refine step (h.evalAll depth (Nat.le_of_lt hlt) σ) fun vs σ => ?_
    exact (hf depth hlt vs).bind_eq fun v => Agree.pure v σ

end Lists

/-! ## Variables -/

theorem Compiles.getLocal {slot : Nat} {x : Variable} (hx : O[slot]? = some x) :
    Compiles lib home limit O (.getLocal slot) (fun σ => pure (σ x, σ)) :=
  .of_step fun depth _ σ => by
    unfold eval
    dsimp only
    rw [map_getElem? hx]
    exact Agree.pure (σ x) σ

theorem Compiles.setLocal {slot : Nat} {x : Variable} (h : Compiles lib home limit O c run)
    (hx : O[slot]? = some x) (hO : O.Nodup) :
    Compiles lib home limit O (.setLocal slot c) (fun σ => do
      let (v, σ) ← run σ
      pure (.unit, σ.set x v)) :=
  .of_step fun depth hlt σ => by
    have hslot : slot < O.length := (List.getElem?_eq_some_iff.1 hx).1
    unfold eval
    refine step (h depth (Nat.le_of_lt hlt) σ) fun v σ => ?_
    dsimp only
    rw [if_pos (by rwa [List.length_map]), map_set hx hO]
    exact Agree.pure Value.unit _

theorem Compiles.getGlobal (index : Nat) :
    Compiles lib home limit O (.getGlobal index) (fun σ => do
      pure (← Run.present ((← get).global? home index), σ)) :=
  .of_step fun depth _ σ => by
    unfold eval
    exact .bind_eq (.refl _) fun s => finish _ σ

theorem Compiles.foreignGlobal (other : ModuleId) (index : Nat) :
    Compiles lib home limit O (.foreignGlobal other index) (fun σ => do
      pure (← Run.present ((← get).global? other index), σ)) :=
  .of_step fun depth _ σ => by
    unfold eval
    exact .bind_eq (.refl _) fun s => finish _ σ

theorem Compiles.setGlobal (h : Compiles lib home limit O c run) (index : Nat) :
    Compiles lib home limit O (.setGlobal index c) (fun σ => do
      let (v, σ) ← run σ
      modify (·.setGlobal home index v)
      pure (.unit, σ)) :=
  .of_step fun depth hlt σ => by
    unfold eval
    refine step (h depth (Nat.le_of_lt hlt) σ) fun v σ => ?_
    exact .bind_eq (.refl _) fun _ => Agree.pure Value.unit σ

/-! ## Control -/

theorem Compiles.branch {no : Code} (ht : Tests lib home limit O c test)
    (hyes : Compiles lib home limit O d run) (hno : Compiles lib home limit O no run') :
    Compiles lib home limit O (.branch c d (some no)) (fun σ => do
      let (b, σ) ← test σ
      if b then run σ else run' σ) :=
  .of_step fun depth hlt σ => by
    unfold eval
    refine step (ht depth (Nat.le_of_lt hlt) σ) fun b σ => ?_
    cases b with
    | true => exact hyes depth (Nat.le_of_lt hlt) σ
    | false => exact hno depth (Nat.le_of_lt hlt) σ

theorem Compiles.branch_none (ht : Tests lib home limit O c test)
    (hyes : Compiles lib home limit O d run) :
    Compiles lib home limit O (.branch c d none) (fun σ => do
      let (b, σ) ← test σ
      if b then run σ else pure (.unit, σ)) :=
  .of_step fun depth hlt σ => by
    unfold eval
    refine step (ht depth (Nat.le_of_lt hlt) σ) fun b σ => ?_
    cases b with
    | true => exact hyes depth (Nat.le_of_lt hlt) σ
    | false => exact Agree.pure Value.unit σ

theorem Compiles.loop (ht : Tests lib home limit O c test) (h : Compiles lib home limit O d run) :
    Compiles lib home limit O (.loop c d) (fun σ => do
      pure (.unit, ← Expr.repeatWhile test run patience σ)) := by
  refine .of_step fun depth hlt σ => ?_
  have hloop : ∀ turns σ, Run.Follows (fun fr σ => fr = O.map σ)
      (evalLoop (eval lib depth home) c d turns (O.map σ)) (Expr.repeatWhile test run turns σ) := by
    intro turns
    induction turns with
    | zero => exact fun σ => .throw _
    | succ turns ih =>
      intro σ
      refine step (ht depth (Nat.le_of_lt hlt) σ) fun b σ => ?_
      cases b with
      | true => exact step (h depth (Nat.le_of_lt hlt) σ) fun _ σ => ih σ
      | false => exact .pure rfl
  unfold eval
  refine (hloop patience σ).bind fun fr σ hfr => ?_
  subst hfr
  exact Agree.pure Value.unit σ

theorem Compiles.not (ht : Tests lib home limit O c test) :
    Compiles lib home limit O (.not c) (fun σ => do
      let (b, σ) ← test σ
      pure (.bool !b, σ)) :=
  .of_step fun depth hlt σ => by
    unfold eval
    exact step (ht depth (Nat.le_of_lt hlt) σ) fun b σ => Agree.pure _ σ

/-- Code that comes to a truth value, and to nothing else. -/
def Decides (lib : Library) (home : ModuleId) (limit : Nat) (O : List Variable) (code : Code)
    (test : Variables → Run (Bool × Variables)) : Prop :=
  Compiles lib home limit O code (fun σ => do
    let (b, σ) ← test σ
    pure (.bool b, σ))

theorem Decides.tests (h : Decides lib home limit O c test) : Tests lib home limit O c test := by
  intro depth hle σ
  have hbool : (do
      let (v, σ) ← (do
        let (b, σ) ← test σ
        pure (Value.bool b, σ))
      pure (← Run.lift v.asBool, σ)) = test σ := by
    simp only [bind_assoc, pure_bind, Value.asBool, Run.lift]
    exact bind_pure (test σ)
  rw [← hbool]
  exact Compiles.tests h depth hle σ

/-- Whether two tests both hold; the second is made only if the first holds. -/
def both (test test' : Variables → Run (Bool × Variables)) (σ : Variables) :
    Run (Bool × Variables) := do
  let (b, σ) ← test σ
  if b then test' σ else pure (false, σ)

/-- Whether one of two tests holds; the second is made only if the first does not hold. -/
def either (test test' : Variables → Run (Bool × Variables)) (σ : Variables) :
    Run (Bool × Variables) := do
  let (b, σ) ← test σ
  if b then pure (true, σ) else test' σ

theorem Decides.and (h : Tests lib home limit O c test) (h' : Tests lib home limit O d test') :
    Decides lib home limit O (.and c d) (both test test') :=
  .of_step fun depth hlt σ => by
    unfold eval
    dsimp only
    unfold both
    rw [bind_assoc]
    refine step (h depth (Nat.le_of_lt hlt) σ) fun b σ => ?_
    cases b with
    | true => exact step (h' depth (Nat.le_of_lt hlt) σ) fun b σ => Agree.pure _ σ
    | false => exact Agree.pure _ σ

theorem Decides.or (h : Tests lib home limit O c test) (h' : Tests lib home limit O d test') :
    Decides lib home limit O (.or c d) (either test test') :=
  .of_step fun depth hlt σ => by
    unfold eval
    dsimp only
    unfold either
    rw [bind_assoc]
    refine step (h depth (Nat.le_of_lt hlt) σ) fun b σ => ?_
    cases b with
    | true => exact Agree.pure _ σ
    | false => exact step (h' depth (Nat.le_of_lt hlt) σ) fun b σ => Agree.pure _ σ

end Source

end Kiln
