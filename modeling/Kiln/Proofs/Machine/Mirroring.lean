import Kiln.Proofs.Lowering.Following
import Kiln.Proofs.Machine.Signing
import Kiln.Proofs.Typing.Judgement
/-!
# Libraries that mirror each other

One library mirrors another when functions of the one stand for functions of the other: they are
called alike, take the same parameters, and have code that is alike, of which the calls go to
functions that stand for each other again. Code that is alike then runs alike (`eval_mirrored`):
from every store it ends in the same way, with the same value or stop and the same store. So does a
call (`call_mirrored`).
-/

namespace Kiln

/-! ## Code that is like itself, and functions that are alike -/

namespace Code

variable {R : Callee → Callee → Prop}

/-- Every call in the code goes to a function that is related to itself. -/
def CallsSelf (R : Callee → Callee → Prop) (c : Code) : Prop :=
  ∀ callee args, Part (.call callee args) c → R callee callee

theorem CallsSelf.operand {c d : Code} (h : c.CallsSelf R) (hd : d ∈ c.operands) : d.CallsSelf R :=
  fun callee args hpart => h callee args (.operand hd hpart)

/-- **Code is like itself** if all functions that it calls are related to themselves. -/
theorem CallsSelf.like : ∀ {c : Code}, c.CallsSelf R → c.Like R c
  | .const _, _ => .const _
  | .getLocal _, _ => .getLocal _
  | .getGlobal _, _ => .getGlobal _
  | .foreignGlobal _ _, _ => .foreignGlobal _ _
  | .setLocal _ _, h => .setLocal _ (h.operand List.mem_cons_self).like
  | .setGlobal _ _, h => .setGlobal _ (h.operand List.mem_cons_self).like
  | .not _, h => .not (h.operand List.mem_cons_self).like
  | .fieldPtr _ _ _, h => .fieldPtr _ _ (h.operand List.mem_cons_self).like
  | .fieldGet _ _, h => .fieldGet _ (h.operand List.mem_cons_self).like
  | .load _ _, h => .load _ (h.operand List.mem_cons_self).like
  | .cast _ _, h => .cast _ (h.operand List.mem_cons_self).like
  | .addr _, h => .addr (h.operand List.mem_cons_self).like
  | .seqLen _, h => .seqLen (h.operand List.mem_cons_self).like
  | .block _, h => .block (List.forall₂_same.2 fun _ hd => (h.operand hd).like)
  | .make _ _, h => .make _ (List.forall₂_same.2 fun _ hd => (h.operand hd).like)
  | .seqLit _ _, h => .seqLit _ (List.forall₂_same.2 fun _ hd => (h.operand hd).like)
  | .call _ _, h => .call (h _ _ (.all _)) (List.forall₂_same.2 fun _ hd => (h.operand hd).like)
  | .branch _ _ none, h =>
    .when (h.operand (by simp [operands])).like (h.operand (by simp [operands])).like
  | .branch _ _ (some _), h =>
    .branch (h.operand (by simp [operands])).like (h.operand (by simp [operands])).like
      (h.operand (by simp [operands])).like
  | .loop _ _,
      h => .loop (h.operand (by simp [operands])).like (h.operand (by simp [operands])).like
  | .binary _ _ _,
      h => .binary _ (h.operand (by simp [operands])).like (h.operand (by simp [operands])).like
  | .and _ _, h => .and (h.operand (by simp [operands])).like (h.operand (by simp [operands])).like
  | .or _ _, h => .or (h.operand (by simp [operands])).like (h.operand (by simp [operands])).like
  | .store _ _ _,
      h => .store _ (h.operand (by simp [operands])).like (h.operand (by simp [operands])).like
  | .offset _ _ _,
      h => .offset _ (h.operand (by simp [operands])).like (h.operand (by simp [operands])).like
  | .seqCopy _ _,
      h => .seqCopy (h.operand (by simp [operands])).like (h.operand (by simp [operands])).like

mutual

/-- Code that calls the same functions is the same. -/
theorem Like.eq : ∀ {c c' : Code}, c.Like Eq c' → c' = c
  | _, _, .const _ | _, _, .getLocal _ | _, _, .getGlobal _ | _, _, .foreignGlobal _ _ => rfl
  | _, _, .setLocal _ h | _, _, .setGlobal _ h | _, _, .not h | _, _, .fieldPtr _ _ h
  | _, _, .fieldGet _ h | _, _, .load _ h | _, _, .cast _ h | _, _, .addr h | _, _,
      .seqLen h => by rw [h.eq]
  | _, _, .block hs | _, _, .make _ hs | _, _, .seqLit _ hs => by rw [Like.eqAll hs]
  | _, _, .call h hs => by rw [h, Like.eqAll hs]
  | _, _, .when h h' | _, _, .loop h h' | _, _, .binary _ h h' | _, _, .and h h' | _, _, .or h h'
  | _, _, .store _ h h' | _, _, .offset _ h h' | _, _, .seqCopy h h' => by rw [h.eq, h'.eq]
  | _, _, .branch h hyes hno => by rw [h.eq, hyes.eq, hno.eq]

theorem Like.eqAll : ∀ {cs cs' : List Code}, List.Forall₂ (Like Eq) cs cs' → cs' = cs
  | _, _, .nil => rfl
  | _, _, .cons h hs => by rw [h.eq, Like.eqAll hs]

end

end Code

/-- The bodies are the same but for the functions that code calls. -/
inductive Body.Like (R : Callee → Callee → Prop) : Body → Body → Prop
  | code {c c' : Code} (slots : Nat) : c.Like R c' → Like R (.code slots c) (.code slots c')
  | native (op : Native) : Like R (.native op) (.native op)

/-- The functions are the same but for the functions that they call. -/
structure Function.Like (R : Callee → Callee → Prop) (f f' : Function) : Prop where
  name : f'.name = f.name
  params : f'.params = f.params
  result : f'.result = f.result
  body : f.body.Like R f'.body

theorem Function.Like.eq {f f' : Function} (h : f.Like Eq f') : f' = f := by
  obtain ⟨name, params, result, body⟩ := f
  obtain ⟨name', params', result', body'⟩ := f'
  obtain ⟨rfl, rfl, rfl, hbody⟩ := h
  rcases hbody with ⟨slots, hc⟩ | ⟨op⟩
  · rw [hc.eq]
  · rfl

/-- A function is like itself, if its code is. -/
theorem Function.like_self {R : Callee → Callee → Prop} {f : Function}
    (h : ∀ slots code, f.body = .code slots code → code.CallsSelf R) : f.Like R f := by
  refine ⟨rfl, rfl, rfl, ?_⟩
  cases hbody : f.body with
  | code slots code => exact .code slots (h slots code hbody).like
  | native op => exact .native op

/-! ## Evaluation -/

/-- In code of the module `home`, the two calls go to functions that are related. -/
def Callee.Via (K : FunctionHandle → FunctionHandle → Prop) (home : ModuleId)
    (callee callee' : Callee) : Prop :=
  K (callee.handle home) (callee'.handle home)

/-- Functions of the second library stand for functions of the first, as `K` says. -/
structure Library.Mirrors (K : FunctionHandle → FunctionHandle → Prop)
    (lib lib' : Library) : Prop where
  layouts : lib'.layouts = lib.layouts
  home : ∀ {handle handle' : FunctionHandle}, K handle handle' → handle'.home = handle.home
  function : ∀ {handle handle' : FunctionHandle}, K handle handle' →
    Option.Rel (Function.Like (Callee.Via K handle.home)) (lib.function? handle)
    (lib'.function? handle')

theorem Run.bind_eq_bind {α β : Type} {x y : Run α} {f g : α → Run β} (h : x = y)
    (hf : ∀ a, f a = g a) :
    x >>= f = y >>= g := by
  rw [h, funext hf]

section Steps

variable {R : Callee → Callee → Prop} {ev ev' : Evaluator}
  (h : ∀ {c c' : Code}, c.Like R c' → ∀ fr, ev c fr = ev' c' fr)

include h

theorem evalAll_mirrored {cs cs' : List Code} (hcs : List.Forall₂ (Code.Like R) cs cs') :
    ∀ fr, evalAll ev cs fr = evalAll ev' cs' fr := by
  induction hcs with
  | nil => exact fun _ => rfl
  | cons hc _ ih =>
    intro fr
    exact Run.bind_eq_bind (h hc fr) fun _ => Run.bind_eq_bind (ih _) fun _ => rfl

theorem evalBlock_mirrored {cs cs' : List Code} (hcs : List.Forall₂ (Code.Like R) cs cs') :
    ∀ last fr, evalBlock ev last cs fr = evalBlock ev' last cs' fr := by
  induction hcs with
  | nil => exact fun _ _ => rfl
  | cons hc _ ih =>
    intro last fr
    exact Run.bind_eq_bind (h hc fr) fun _ => ih _ _

theorem evalTest_mirrored {c c' : Code} (hc : c.Like R c') (fr : Frame) :
    evalTest ev c fr = evalTest ev' c' fr :=
  Run.bind_eq_bind (h hc fr) fun _ => rfl

theorem evalLoop_mirrored {cond cond' body body' : Code} (hcond : cond.Like R cond')
    (hbody : body.Like R body') : ∀ n fr, evalLoop ev cond body n fr = evalLoop ev' cond' body' n fr
  | 0, _ => rfl
  | n + 1, fr => by
    refine Run.bind_eq_bind (evalTest_mirrored h hcond fr) ?_
    rintro ⟨go, fr⟩
    dsimp only
    split
    · exact Run.bind_eq_bind (h hbody fr) fun _ => evalLoop_mirrored hcond hbody n _
    · rfl

end Steps

section Mirror

variable {K : FunctionHandle → FunctionHandle → Prop} {lib lib' : Library}

theorem invoke_mirrored (hlib : lib.Mirrors K lib') {run run' : ModuleId → Evaluator}
    (h : ∀ home {c c' : Code}, c.Like (Callee.Via K home) c' →
      ∀ fr, run home c fr = run' home c' fr)
    {handle handle' : FunctionHandle} (hK : K handle handle') (args : List Value) :
    invoke lib run handle args = invoke lib' run' handle' args := by
  have hfunction := hlib.function hK
  unfold invoke
  generalize lib.function? handle = found at hfunction
  generalize lib'.function? handle' = found' at hfunction
  cases hfunction with
  | none => rfl
  | @some f f' hf =>
    obtain ⟨name, params, result, body⟩ := f
    obtain ⟨name', params', result', body'⟩ := f'
    obtain ⟨rfl, rfl, rfl, hbody⟩ := hf
    simp only [Run.present, pure_bind]
    split
    · rfl
    · cases hbody with
      | native op => rfl
      | code slots hc =>
        rw [hlib.home hK]
        exact Run.bind_eq_bind (h _ hc _) fun _ => rfl

/-- **Code that is alike runs alike** in libraries of which the one mirrors the other. -/
theorem eval_mirrored (hlib : lib.Mirrors K lib') : ∀ depth home {c c' : Code},
    c.Like (Callee.Via K home) c' → ∀ fr, eval lib depth home c fr = eval lib' depth home c' fr
  | 0, _, _, _, _, _ => rfl
  | depth + 1, home, c, c', hc, fr => by
    have ih : ∀ home {c c' : Code}, c.Like (Callee.Via K home) c' → ∀ fr,
        eval lib depth home c fr = eval lib' depth home c' fr :=
          fun home _ _ => eval_mirrored hlib depth home
    have h : ∀ {c c' : Code}, c.Like (Callee.Via K home) c' → ∀ fr,
        eval lib depth home c fr = eval lib' depth home c' fr := ih home
    unfold eval
    cases hc with
    | const v => rfl
    | getLocal slot => rfl
    | setLocal slot hvalue => exact Run.bind_eq_bind (h hvalue fr) fun _ => rfl
    | getGlobal index => rfl
    | setGlobal index hvalue => exact Run.bind_eq_bind (h hvalue fr) fun _ => rfl
    | foreignGlobal other index => rfl
    | block hitems => exact evalBlock_mirrored h hitems _ fr
    | when hcond hyes =>
      refine Run.bind_eq_bind (evalTest_mirrored h hcond fr) ?_
      rintro ⟨go, fr⟩
      dsimp only
      split
      · exact h hyes fr
      · rfl
    | branch hcond hyes hno =>
      refine Run.bind_eq_bind (evalTest_mirrored h hcond fr) ?_
      rintro ⟨go, fr⟩
      dsimp only
      split
      · exact h hyes fr
      · exact h hno fr
    | loop hcond hbody =>
      exact Run.bind_eq_bind (evalLoop_mirrored h hcond hbody patience fr) fun _ => rfl
    | binary op hleft hright =>
      exact Run.bind_eq_bind (h hleft fr) fun _ => Run.bind_eq_bind (h hright _) fun _ => rfl
    | not hvalue => exact Run.bind_eq_bind (evalTest_mirrored h hvalue fr) fun _ => rfl
    | and hleft hright =>
      refine Run.bind_eq_bind (evalTest_mirrored h hleft fr) ?_
      rintro ⟨go, fr⟩
      dsimp only
      split
      · exact Run.bind_eq_bind (evalTest_mirrored h hright fr) fun _ => rfl
      · rfl
    | or hleft hright =>
      refine Run.bind_eq_bind (evalTest_mirrored h hleft fr) ?_
      rintro ⟨go, fr⟩
      dsimp only
      split
      · rfl
      · exact Run.bind_eq_bind (evalTest_mirrored h hright fr) fun _ => rfl
    | @call callee callee' _ _ hcallee hargs =>
      refine Run.bind_eq_bind (evalAll_mirrored h hargs fr) fun _ => ?_
      refine Run.bind_eq_bind (invoke_mirrored hlib ih ?_ _) fun _ => rfl
      cases callee <;> cases callee' <;> exact hcallee
    | fieldPtr offset t hbase => exact Run.bind_eq_bind (h hbase fr) fun _ => rfl
    | fieldGet index hbase => exact Run.bind_eq_bind (h hbase fr) fun _ => rfl
    | make ref hfields => exact Run.bind_eq_bind (evalAll_mirrored h hfields fr) fun _ => rfl
    | load t hptr =>
      rw [hlib.layouts]
      exact Run.bind_eq_bind (h hptr fr) fun _ => rfl
    | store t hptr hvalue =>
      rw [hlib.layouts]
      exact Run.bind_eq_bind (h hptr fr) fun _ => Run.bind_eq_bind (h hvalue _) fun _ => rfl
    | cast t hvalue => exact Run.bind_eq_bind (h hvalue fr) fun _ => rfl
    | offset stride hptr hcount =>
      exact Run.bind_eq_bind (h hptr fr) fun _ => Run.bind_eq_bind (h hcount _) fun _ => rfl
    | addr hptr => exact Run.bind_eq_bind (h hptr fr) fun _ => rfl
    | seqLit elem hitems =>
      rw [hlib.layouts]
      exact Run.bind_eq_bind (evalAll_mirrored h hitems fr) fun _ => rfl
    | seqLen hseq => exact Run.bind_eq_bind (h hseq fr) fun _ => rfl
    | seqCopy hdst hseq =>
      exact Run.bind_eq_bind (h hdst fr) fun _ => Run.bind_eq_bind (h hseq _) fun _ => rfl

/-- **Calls of functions that stand for each other are the same.** -/
theorem call_mirrored (hlib : lib.Mirrors K lib') {handle handle' : FunctionHandle}
    (hK : K handle handle') (args : List Value) : call lib handle args = call lib' handle' args :=
  invoke_mirrored hlib (eval_mirrored hlib maxDepth) hK args

/-- Initialisers that are alike give a global the same first value. -/
theorem evaluate_mirrored (hlib : lib.Mirrors K lib') {home : ModuleId} (slots : Nat) {c c' : Code}
    (hc : c.Like (Callee.Via K home) c') :
    evaluate lib home slots c = evaluate lib' home slots c' :=
  Run.bind_eq_bind (eval_mirrored hlib maxDepth home hc _) fun _ => rfl

end Mirror

end Kiln
