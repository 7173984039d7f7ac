import Kiln.Machine.Operation
/-!
# Evaluation

`eval` runs code in a frame. Each step into a part of the code, the body of a called
function included, uses up one level of depth, so that evaluation ends however calls
nest; a loop stays at its level, and is given a bound on its turns that no run
reaches. A frame is the list of the values of its slots; every step hands it on.
-/

namespace Kiln

/-- The levels that evaluation may nest. -/
def maxDepth : Nat := 256

/-- More turns than a loop makes in any run that ends. -/
def patience : Nat := UInt64.size

/-- The values of a function's slots. -/
abbrev Frame := List Value

/-- Runs a part of the code in a frame. -/
abbrev Evaluator := Code → Frame → Run (Value × Frame)

/-- Evaluates code one after the other, for the values. -/
def evalAll (ev : Evaluator) : List Code → Frame → Run (List Value × Frame)
  | [], fr => pure ([], fr)
  | c :: cs, fr => do
    let (v, fr) ← ev c fr
    let (vs, fr) ← evalAll ev cs fr
    pure (v :: vs, fr)

/-- Evaluates code one after the other, for the last value. -/
def evalBlock (ev : Evaluator) (last : Value) : List Code → Frame → Run (Value × Frame)
  | [], fr => pure (last, fr)
  | c :: cs, fr => do
    let (v, fr) ← ev c fr
    evalBlock ev v cs fr

/-- Evaluates code for a truth value. -/
def evalTest (ev : Evaluator) (c : Code) (fr : Frame) : Run (Bool × Frame) := do
  let (v, fr) ← ev c fr
  pure (← Run.lift v.asBool, fr)

/-- Evaluates the body for as long as the condition holds, at most the given number of
times. -/
def evalLoop (ev : Evaluator) (cond body : Code) : Nat → Frame → Run Frame
  | 0, _ => Run.halt .endless
  | n + 1, fr => do
    let (go, fr) ← evalTest ev cond fr
    if go then
      let (_, fr) ← ev body fr
      evalLoop ev cond body n fr
    else pure fr

/-- Calls a function; `ev` runs the code of its module. -/
def invoke (lib : Library) (ev : ModuleId → Evaluator) (handle : FunctionHandle)
    (args : List Value) : Run Value := do
  let f ← Run.present (lib.function? handle)
  if args.length ≠ f.params.length then
    Run.fail (.arity f.name f.params.length args.length)
  else match f.body with
    | .native op => op.run args
    | .code slots code =>
      let fr := args ++ List.replicate (slots - args.length) .unit
      return (← ev handle.home code fr).1

/-- The address a count of strides away. -/
def strideFrom (addr : UInt64) (count : Int64) (stride : UInt64) : UInt64 :=
  (addr.toInt64 + count * stride.toInt64).toUInt64

/-- The field of a struct value. -/
def Value.fieldAt (index : Nat) : Value → Except Fault Value
  | .struct ref fields =>
    match fields[index]? with
    | some v => .ok v
    | none => .error (.unknownField index ref.name)
  | v => .error (.mismatch (.fieldOf v.typeName))

/-- Runs code of the module `home` in a frame, at most `depth` levels deep. -/
def eval (lib : Library) : Nat → ModuleId → Evaluator
  | 0, _, _, _ => Run.fail (.tooDeep maxDepth)
  | depth + 1, home, code, fr => do
    let ev := eval lib depth home
    match code with
    | .const v => pure (v, fr)
    | .getLocal slot => pure (← Run.present fr[slot]?, fr)
    | .setLocal slot value =>
      let (v, fr) ← ev value fr
      if slot < fr.length then pure (.unit, fr.set slot v) else Run.halt .stray
    | .getGlobal index => pure (← Run.present ((← get).global? home index), fr)
    | .setGlobal index value =>
      let (v, fr) ← ev value fr
      modify (·.setGlobal home index v)
      pure (.unit, fr)
    | .foreignGlobal other index => pure (← Run.present ((← get).global? other index), fr)
    | .block items => evalBlock ev .unit items fr
    | .branch cond onTrue onFalse =>
      let (go, fr) ← evalTest ev cond fr
      if go then ev onTrue fr
      else match onFalse with
        | some other => ev other fr
        | none => pure (.unit, fr)
    | .loop cond body => pure (.unit, ← evalLoop ev cond body patience fr)
    | .binary op left right =>
      let (a, fr) ← ev left fr
      let (b, fr) ← ev right fr
      pure (← Run.lift (op.apply a b), fr)
    | .not value =>
      let (b, fr) ← evalTest ev value fr
      pure (.bool !b, fr)
    | .and left right =>
      let (a, fr) ← evalTest ev left fr
      if a then
        let (b, fr) ← evalTest ev right fr
        pure (.bool b, fr)
      else pure (.bool false, fr)
    | .or left right =>
      let (a, fr) ← evalTest ev left fr
      if a then pure (.bool true, fr)
      else
        let (b, fr) ← evalTest ev right fr
        pure (.bool b, fr)
    | .call callee args =>
      let (values, fr) ← evalAll ev args fr
      let handle := match callee with
        | .own index => ⟨home, index⟩
        | .foreign other index => ⟨other, index⟩
      pure (← invoke lib (eval lib depth) handle values, fr)
    | .fieldPtr base offset target =>
      let (v, fr) ← ev base fr
      let (addr, _) ← Run.lift v.asPtr
      pure (.ptr (addr + offset) target, fr)
    | .fieldGet base index =>
      let (v, fr) ← ev base fr
      pure (← Run.lift (v.fieldAt index), fr)
    | .make type fields =>
      let (vs, fr) ← evalAll ev fields fr
      pure (.struct type vs, fr)
    | .load ptr type =>
      let (v, fr) ← ev ptr fr
      let (addr, _) ← Run.lift v.asPtr
      let Γ := lib.layouts
      let bytes ← Run.lift ((← get).heap.read addr (type.size Γ))
      pure (← Run.lift (Value.decode Γ type bytes), fr)
    | .store ptr value type =>
      let (p, fr) ← ev ptr fr
      let (v, fr) ← ev value fr
      let bytes ← Run.lift (v.encode lib.layouts type)
      let (addr, _) ← Run.lift p.asPtr
      Run.updateHeap (·.write addr bytes)
      pure (.unit, fr)
    | .cast value type =>
      let (v, fr) ← ev value fr
      pure (← Run.lift (v.cast type), fr)
    | .offset ptr count stride =>
      let (p, fr) ← ev ptr fr
      let (c, fr) ← ev count fr
      let n ← Run.lift c.asInt
      let (addr, target) ← Run.lift p.asPtr
      pure (.ptr (strideFrom addr n stride) target, fr)
    | .addr ptr =>
      let (p, fr) ← ev ptr fr
      let (addr, _) ← Run.lift p.asPtr
      pure (.int addr.toInt64, fr)
    | .seqLit elem items =>
      let (vs, fr) ← evalAll ev items fr
      pure (← Run.lift (Value.ofItems lib.layouts elem vs), fr)
    | .seqLen seq =>
      let (v, fr) ← ev seq fr
      let (len, _) ← Run.lift v.asSeq
      pure (.int len.toInt64, fr)
    | .seqCopy dst seq =>
      let (p, fr) ← ev dst fr
      let (v, fr) ← ev seq fr
      let (addr, _) ← Run.lift p.asPtr
      let (_, bytes) ← Run.lift v.asSeq
      Run.updateHeap (·.write addr bytes)
      pure (.unit, fr)

/-- Calls a function from outside. -/
def call (lib : Library) (handle : FunctionHandle) (args : List Value) : Run Value :=
  invoke lib (eval lib maxDepth) handle args

/-- Runs code of a module in a frame of its own. -/
def evaluate (lib : Library) (home : ModuleId) (slots : Nat) (code : Code) : Run Value :=
  return (← eval lib maxDepth home code (List.replicate slots .unit)).1

end Kiln
