import Kiln.Machine.Eval
/-!
# Evaluation that watches its slots

The same evaluation over frames of any kind (`evalOver`): all that it asks of a frame is to read and
to assign its slots. Over plain frames it is `eval` (`evalOver_plain`). Over guarded frames
(`Slots.guarded`), where a slot holds nothing until it is assigned, a run that reads a slot too
early stops for good there, while `eval` goes on with the unit that fills new frames. So a run that
ends over guarded frames as it does over plain ones reads no slot of its frame before it is
assigned. The functions it calls run in plain frames of their own.
-/

namespace Kiln

/-- Frames of a kind: how a slot is read, and how it is assigned. -/
structure Slots (φ : Type) where
  get : φ → Nat → Option Value
  set : φ → Nat → Value → Option φ

namespace Slots

/-- The frames of `eval`. -/
def plain : Slots Frame where
  get fr slot := fr[slot]?
  set fr slot v := if slot < fr.length then some (fr.set slot v) else none

/-- Frames whose slots hold nothing until they are assigned. -/
def guarded : Slots (List (Option Value)) where
  get fr slot := fr[slot]?.join
  set fr slot v := if slot < fr.length then some (fr.set slot (some v)) else none

end Slots

/-- The guarded frame of a call with these arguments, with this many slots. -/
def guardedFrame (args : List Value) (slots : Nat) : List (Option Value) :=
  args.map some ++ List.replicate (slots - args.length) none

section Over

variable {φ : Type} (ev : Code → φ → Run (Value × φ))

/-- Evaluates code one after the other, for the values. -/
def evalAllOver : List Code → φ → Run (List Value × φ)
  | [], fr => pure ([], fr)
  | c :: cs, fr => do
    let (v, fr) ← ev c fr
    let (vs, fr) ← evalAllOver cs fr
    pure (v :: vs, fr)

/-- Evaluates code one after the other, for the last value. -/
def evalBlockOver (last : Value) : List Code → φ → Run (Value × φ)
  | [], fr => pure (last, fr)
  | c :: cs, fr => do
    let (v, fr) ← ev c fr
    evalBlockOver v cs fr

/-- Evaluates code for a truth value. -/
def evalTestOver (c : Code) (fr : φ) : Run (Bool × φ) := do
  let (v, fr) ← ev c fr
  pure (← Run.lift v.asBool, fr)

/-- Evaluates the body for as long as the condition holds, at most the given number of
times. -/
def evalLoopOver (cond body : Code) : Nat → φ → Run φ
  | 0, _ => Run.halt .endless
  | n + 1, fr => do
    let (go, fr) ← evalTestOver ev cond fr
    if go then
      let (_, fr) ← ev body fr
      evalLoopOver cond body n fr
    else pure fr

end Over

/-- Runs code of the module `home` in a frame of any kind, at most `depth` levels deep. -/
def evalOver {φ : Type} (S : Slots φ) (lib : Library) :
    Nat → ModuleId → Code → φ → Run (Value × φ)
  | 0, _, _, _ => Run.fail (.tooDeep maxDepth)
  | depth + 1, home, code, fr => do
    let ev := evalOver S lib depth home
    match code with
    | .const v => pure (v, fr)
    | .getLocal slot => pure (← Run.present (S.get fr slot), fr)
    | .setLocal slot value =>
      let (v, fr) ← ev value fr
      pure (.unit, ← Run.present (S.set fr slot v))
    | .getGlobal index => pure (← Run.present ((← get).global? home index), fr)
    | .setGlobal index value =>
      let (v, fr) ← ev value fr
      modify (·.setGlobal home index v)
      pure (.unit, fr)
    | .foreignGlobal other index => pure (← Run.present ((← get).global? other index), fr)
    | .block items => evalBlockOver ev .unit items fr
    | .branch cond onTrue onFalse =>
      let (go, fr) ← evalTestOver ev cond fr
      if go then ev onTrue fr
      else match onFalse with
        | some other => ev other fr
        | none => pure (.unit, fr)
    | .loop cond body => pure (.unit, ← evalLoopOver ev cond body patience fr)
    | .binary op left right =>
      let (a, fr) ← ev left fr
      let (b, fr) ← ev right fr
      pure (← Run.lift (op.apply a b), fr)
    | .not value =>
      let (b, fr) ← evalTestOver ev value fr
      pure (.bool !b, fr)
    | .and left right =>
      let (a, fr) ← evalTestOver ev left fr
      if a then
        let (b, fr) ← evalTestOver ev right fr
        pure (.bool b, fr)
      else pure (.bool false, fr)
    | .or left right =>
      let (a, fr) ← evalTestOver ev left fr
      if a then pure (.bool true, fr)
      else
        let (b, fr) ← evalTestOver ev right fr
        pure (.bool b, fr)
    | .call callee args =>
      let (values, fr) ← evalAllOver ev args fr
      let handle := match callee with
        | .own index => ⟨home, index⟩
        | .foreign other index => ⟨other, index⟩
      pure (← invoke lib (eval lib depth) handle values, fr)
    | .fieldPtr base offset target =>
      let (v, fr) ← ev base fr
      let (addr, _) ← Run.lift v.asPtr
      pure (.ptr (addr + offset) target, fr)
    | .fieldGet base index =>
      let (v, fr) ← ev base fr
      pure (← Run.lift (v.fieldAt index), fr)
    | .make type fields =>
      let (vs, fr) ← evalAllOver ev fields fr
      pure (.struct type vs, fr)
    | .load ptr type =>
      let (v, fr) ← ev ptr fr
      let (addr, _) ← Run.lift v.asPtr
      let Γ := lib.layouts
      let bytes ← Run.lift ((← get).heap.read addr (type.size Γ))
      pure (← Run.lift (Value.decode Γ type bytes), fr)
    | .store ptr value type =>
      let (p, fr) ← ev ptr fr
      let (v, fr) ← ev value fr
      let bytes ← Run.lift (v.encode lib.layouts type)
      let (addr, _) ← Run.lift p.asPtr
      Run.updateHeap (·.write addr bytes)
      pure (.unit, fr)
    | .cast value type =>
      let (v, fr) ← ev value fr
      pure (← Run.lift (v.cast type), fr)
    | .offset ptr count stride =>
      let (p, fr) ← ev ptr fr
      let (c, fr) ← ev count fr
      let n ← Run.lift c.asInt
      let (addr, target) ← Run.lift p.asPtr
      pure (.ptr (strideFrom addr n stride) target, fr)
    | .addr ptr =>
      let (p, fr) ← ev ptr fr
      let (addr, _) ← Run.lift p.asPtr
      pure (.int addr.toInt64, fr)
    | .seqLit elem items =>
      let (vs, fr) ← evalAllOver ev items fr
      pure (← Run.lift (Value.ofItems lib.layouts elem vs), fr)
    | .seqLen seq =>
      let (v, fr) ← ev seq fr
      let (len, _) ← Run.lift v.asSeq
      pure (.int len.toInt64, fr)
    | .seqCopy dst seq =>
      let (p, fr) ← ev dst fr
      let (v, fr) ← ev seq fr
      let (addr, _) ← Run.lift p.asPtr
      let (_, bytes) ← Run.lift v.asSeq
      Run.updateHeap (·.write addr bytes)
      pure (.unit, fr)

/-! ## Plain frames -/

section Plain

variable (ev : Evaluator)

theorem evalAllOver_plain : ∀ cs fr, evalAllOver ev cs fr = evalAll ev cs fr
  | [], _ => rfl
  | c :: cs, fr => by simp only [evalAllOver, evalAll, evalAllOver_plain cs]

theorem evalBlockOver_plain : ∀ last cs fr, evalBlockOver ev last cs fr = evalBlock ev last cs fr
  | _, [], _ => rfl
  | _, c :: cs, fr => by simp only [evalBlockOver, evalBlock, evalBlockOver_plain _ cs]

theorem evalTestOver_plain (c : Code) (fr : Frame) : evalTestOver ev c fr = evalTest ev c fr := rfl

theorem evalLoopOver_plain (cond body : Code) :
    ∀ n fr, evalLoopOver ev cond body n fr = evalLoop ev cond body n fr
  | 0, _ => rfl
  | n + 1, fr => by simp only [evalLoopOver, evalLoop, evalTestOver_plain, evalLoopOver_plain _ _ n]

end Plain

/-- **Over plain frames, evaluation is that of the machine.** -/
theorem evalOver_plain (lib : Library) :
    ∀ depth home, evalOver Slots.plain lib depth home = eval lib depth home
  | 0, _ => rfl
  | depth + 1, home => by
    have hset : ∀ (fr : Frame) (slot : Nat) (v : Value),
        (do pure (.unit, ← Run.present (Slots.plain.set fr slot v)) : Run (Value × Frame)) =
          if slot < fr.length then pure (.unit, fr.set slot v) else Run.halt .stray := by
      intro fr slot v
      rw [Slots.plain]
      dsimp only
      split
      · rfl
      · rfl
    funext code fr
    unfold evalOver eval
    rw [evalOver_plain lib depth home]
    cases code <;> simp only [evalAllOver_plain, evalBlockOver_plain, evalTestOver_plain,
      evalLoopOver_plain, hset]
    all_goals rfl

end Kiln
