import Kiln.Proofs.Machine.Guarded
import Kiln.Proofs.Typing.Soundness
/-!
# Typed code and what it overlooks

Typed code reads slots that were assigned, and uses what its interface offers. So it does the same
in frames that agree on the assigned slots (`Slots.Shadows`) and in stores that differ only in
globals it does not use (`Interface.Overlooks`): the ends of the two runs are alike
(`HasType.alike`). In particular code runs over a guarded frame as it does over a plain one.
-/

namespace Kiln

/-- The ends of two runs: values that are related, or one stop, in stores that are related. -/
inductive EndsAlike {α β : Type} (T : Store → Store → Prop) (R : α → β → Prop) :
    EStateM.Result Stop Store α → EStateM.Result Stop Store β → Prop
  | value {a : α} {b : β} {s s' : Store} : R a b → T s s' → EndsAlike T R (.ok a s) (.ok b s')
  | stop {e : Stop} {s s' : Store} : T s s' → EndsAlike T R (.error e s) (.error e s')

namespace Run

/-- From stores that are related, the two runs end alike. -/
def Alike {α β : Type} (T : Store → Store → Prop) (R : α → β → Prop) (x : Run α)
    (y : Run β) : Prop :=
  ∀ s s', T s s' → EndsAlike T R (x s) (y s')

namespace Alike

variable {α β γ δ : Type} {T : Store → Store → Prop} {R : α → β → Prop} {Q : γ → δ → Prop}

theorem pure {a : α} {b : β} (h : R a b) : Alike T R (pure a) (pure b) := fun _ _ hs => .value h hs

theorem throw (e : Stop) : Alike T R (throw e) (throw e) := fun _ _ hs => .stop hs

/-- **Runs are alike step by step.** -/
theorem bind {x : Run α} {y : Run β} {f : α → Run γ} {g : β → Run δ} (hx : Alike T R x y)
    (hf : ∀ a b, R a b → Alike T Q (f a) (g b)) : Alike T Q (x >>= f) (y >>= g) := by
  intro s s' hs
  have hend := hx s s' hs
  show EndsAlike T Q (EStateM.bind x f s) (EStateM.bind y g s')
  unfold EStateM.bind
  generalize x s = ex at hend
  generalize y s' = ey at hend
  cases hend with
  | value h hs => exact hf _ _ h _ _ hs
  | stop hs => exact .stop hs

/-- Step by step, where the first steps end with the same value. -/
theorem bind_eq {x y : Run α} {f : α → Run γ} {g : α → Run δ} (hx : Alike T Eq x y)
    (hf : ∀ a, Alike T Q (f a) (g a)) : Alike T Q (x >>= f) (y >>= g) :=
  hx.bind fun a _ h => h ▸ hf a

theorem imp {R' : α → β → Prop} {x : Run α} {y : Run β} (h : Alike T R x y)
    (hR : ∀ a b, R a b → R' a b) : Alike T R' x y := by
  intro s s' hs
  have hend := h s s' hs
  generalize x s = ex at hend ⊢
  generalize y s' = ey at hend ⊢
  cases hend with
  | value h hs => exact .value (hR _ _ h) hs
  | stop hs => exact .stop hs

theorem lift (x : Except Fault α) : Alike T Eq (Run.lift x) (Run.lift x) := by
  cases x with
  | ok a => exact .pure rfl
  | error f => exact .throw _

theorem present (x : Option α) : Alike T Eq (Run.present x) (Run.present x) := by
  cases x with
  | some a => exact .pure rfl
  | none => exact .throw _

/-- A step that reads the store. -/
theorem get {f : Store → Run γ} {g : Store → Run δ} (h : ∀ s s', T s s' → Alike T Q (f s) (g s')) :
    Alike T Q (get >>= f) (get >>= g) :=
  fun s s' hs => h s s' hs s s' hs

theorem set {s s' : Store} (h : T s s') : Alike T Eq (set s : Run PUnit) (set s') :=
  fun _ _ _ => .value rfl h

theorem modify {change : Store → Store} (h : ∀ s s', T s s' → T (change s) (change s')) :
    Alike T Eq (modify change : Run PUnit) (modify change) :=
  fun s s' hs => .value rfl (h s s' hs)

/-- Runs from one store that are alike are the same. -/
theorem eq {x y : Run α} (h : Alike Eq Eq x y) : x = y := by
  funext s
  have hend := h s s rfl
  generalize x s = ex at hend ⊢
  generalize y s = ey at hend ⊢
  cases hend with
  | value h hs => rw [h, hs]
  | stop hs => rw [hs]

/-- Every run is like itself. -/
theorem refl (x : Run α) : Alike Eq Eq x x := by
  rintro s _ rfl
  rcases x s with ⟨a, s'⟩ | ⟨e, s'⟩
  · exact .value rfl rfl
  · exact .stop rfl

end Alike

end Run

/-! ## Stores -/

/-- Stores that are related differ at most in globals that the interface does not offer. -/
structure Interface.Overlooks (P : Interface) (T : Store → Store → Prop) : Prop where
  heap : ∀ s s', T s s' → s.heap = s'.heap
  setHeap : ∀ s s' heap, T s s' → T { s with heap } { s' with heap }
  print : ∀ s s' line, T s s' → T (s.print line) (s'.print line)
  global : ∀ s s' home i t, T s s' → P.global home i = some t → s.global? home i = s'.global? home i
  setGlobal : ∀ s s' home i t v, T s s' → P.global home i = some t →
    T (s.setGlobal home i v) (s'.setGlobal home i v)

/-- Nothing is overlooked in a store that is the same. -/
theorem Interface.overlooks_eq (P : Interface) : P.Overlooks Eq := by
  refine ⟨?_, ?_, ?_, ?_, ?_⟩ <;> intros <;> subst_vars <;> rfl

namespace Interface.Overlooks

variable {P : Interface} {T : Store → Store → Prop} (hT : P.Overlooks T)

include hT

theorem updateHeap (change : Heap → Except Fault Heap) :
    Run.Alike T Eq (Run.updateHeap change) (Run.updateHeap change) := by
  refine .get fun s s' hs => ?_
  rw [hT.heap s s' hs]
  exact (Run.Alike.lift _).bind_eq fun heap => .set (hT.setHeap s s' heap hs)

theorem allocate (size : UInt64) : Run.Alike T Eq (Kiln.allocate size) (Kiln.allocate size) := by
  refine .get fun s s' hs => ?_
  rw [hT.heap s s' hs]
  rcases s'.heap.alloc size with e | ⟨addr, heap⟩
  · exact .throw _
  · exact (Run.Alike.set (hT.setHeap s s' heap hs)).bind_eq fun _ => .pure rfl

/-- What a function of the host does is the same in both stores. -/
theorem native (op : Native) (args : List Value) : Run.Alike T Eq (op.run args) (op.run args) := by
  have hprint :
      ∀ line, Run.Alike T Eq (modify (·.print line)) (modify (·.print line)) := fun line =>
    .modify fun s s' hs => hT.print s s' line hs
  unfold Native.run
  split
  · exact (Run.Alike.lift _).bind_eq fun n => (hT.allocate _).bind_eq fun addr => .pure rfl
  · exact (Run.Alike.lift _).bind_eq fun addr => (hT.updateHeap _).bind_eq fun _ => .pure rfl
  · refine (Run.Alike.lift _).bind_eq fun d => (Run.Alike.lift _).bind_eq fun s => ?_
    exact (Run.Alike.lift _).bind_eq fun n => (hT.updateHeap _).bind_eq fun _ => .pure rfl
  · refine (Run.Alike.lift _).bind_eq fun d => (Run.Alike.lift _).bind_eq fun b => ?_
    exact (Run.Alike.lift _).bind_eq fun n => (hT.updateHeap _).bind_eq fun _ => .pure rfl
  · exact (Run.Alike.lift _).bind_eq fun text => .throw _
  · exact (Run.Alike.lift _).bind_eq fun text => (hprint _).bind_eq fun _ => .pure rfl
  · exact (Run.Alike.lift _).bind_eq fun n => (hprint _).bind_eq fun _ => .pure rfl
  · have hdiscard : ∀ millis : Value, Run.Alike T Eq (discard (Run.lift millis.asInt))
        (discard (Run.lift millis.asInt)) := fun millis =>
      (Run.Alike.lift millis.asInt).bind_eq fun _ => .pure rfl
    exact (hdiscard _).bind_eq fun _ => .pure rfl
  · exact .throw _

end Interface.Overlooks

/-! ## Frames -/

/-- Frames of a kind that agree with plain ones of `n` slots, as far as the slots were assigned. -/
structure Slots.Shadows {φ : Type} (S : Slots φ) (n : Nat)
    (G : Assigned → φ → Frame → Prop) : Prop where
  get : ∀ A g fr i, G A g fr → i ∈ A → i < n → S.get g i = fr[i]?
  set : ∀ A g fr i v, G A g fr → i < n → i < fr.length ∧
    ∃ g', S.set g i v = some g' ∧ G (insert i A) g' (fr.set i v)
  mono : ∀ A B g fr, A ⊆ B → G B g fr → G A g fr

/-- A frame of `n` slots agrees with itself. -/
theorem Slots.plain_shadows (n : Nat) :
    Slots.plain.Shadows n fun _ fr fr' => fr = fr' ∧ fr.length = n := by
  refine ⟨?_, ?_, fun _ _ _ _ _ h => h⟩
  · rintro A fr _ i ⟨rfl, -⟩ - -
    rfl
  · rintro A fr _ i v ⟨rfl, rfl⟩ hi
    exact ⟨hi, fr.set i v, if_pos hi, rfl, List.length_set⟩

/-- A guarded frame and a plain one of `n` slots, where the assigned slots hold the same. -/
structure Guards (n : Nat) (A : Assigned) (g : List (Option Value)) (fr : Frame) : Prop where
  length : g.length = n
  length_eq : fr.length = n
  slot : ∀ i ∈ A, i < n → g[i]? = (fr[i]?).map some

theorem Slots.guarded_shadows (n : Nat) : Slots.guarded.Shadows n (Guards n) := by
  refine ⟨fun A g fr i h hA hi => ?_, fun A g fr i v h hi => ?_, fun A B g fr hle h => ?_⟩
  · show (g[i]?).join = fr[i]?
    rw [h.slot i hA hi]
    cases fr[i]? <;> rfl
  · refine ⟨h.length_eq ▸ hi, g.set i (some v), if_pos (h.length ▸ hi), ?_⟩
    refine ⟨by
      rw [List.length_set, h.length], by rw [List.length_set, h.length_eq], fun j hj hlt => ?_⟩
    by_cases hij : i = j
    · subst hij
      rw [List.getElem?_set_self (h.length ▸ hi), List.getElem?_set_self (h.length_eq ▸ hi)]
      rfl
    · rw [List.getElem?_set_ne hij, List.getElem?_set_ne hij]
      exact h.slot j (hj.resolve_left fun heq => hij heq.symm) hlt
  · exact ⟨h.length, h.length_eq, fun i hi => h.slot i (hle hi)⟩

/-- The frames of a call: its arguments are assigned. -/
theorem guards_start {args : List Value} {n : Nat} {A : Assigned} (hlen : args.length ≤ n)
    (hA : ∀ i ∈ A, i < args.length) :
    Guards n A (guardedFrame args n) (args ++ List.replicate (n - args.length) .unit) := by
  refine ⟨?_, ?_, fun i hi _ => ?_⟩
  · rw [guardedFrame, List.length_append, List.length_map, List.length_replicate]
    omega
  · rw [List.length_append, List.length_replicate]
    omega
  · have hlt := hA i hi
    rw [guardedFrame, List.getElem?_append_left (by rwa [List.length_map]), List.getElem?_map,
      List.getElem?_append_left hlt]

/-! ## Code -/

/-- The same result, and frames that agree as far as the slots were assigned. -/
inductive SameResult {α φ : Type} (G : Assigned → φ → Frame → Prop) (B : Assigned) :
    α × φ → α × Frame → Prop
  | mk (a : α) {g : φ} {fr : Frame} : G B g fr → SameResult G B (a, g) (a, fr)

variable {P : Interface} {T : Store → Store → Prop} {home : ModuleId} {slots : List Ty}
  {lib : Library}

/-- Calls that code may make do the same from stores that are related. -/
def Interface.CallsAlike (P : Interface) (T : Store → Store → Prop) (lib : Library) (depth : Nat) :
    Prop :=
  ∀ handle sig args, P.function handle = some sig →
    Run.Alike T Eq (invoke lib (eval lib depth) handle args)
    (invoke lib (eval lib depth) handle args)

section Frames

variable {φ : Type} {S : Slots φ} {G : Assigned → φ → Frame → Prop}

/-- Typed code is run alike in frames that agree. -/
def WatchedBy (P : Interface) (T : Store → Store → Prop) (home : ModuleId) (slots : List Ty)
    (G : Assigned → φ → Frame → Prop) (evg : Code → φ → Run (Value × φ)) (ev : Evaluator) : Prop :=
  ∀ ⦃A B : Assigned⦄ ⦃c : Code⦄ ⦃t : Ty⦄ ⦃g : φ⦄ ⦃fr : Frame⦄, HasType P home slots A c t B →
    G A g fr → Run.Alike T (SameResult G B) (evg c g) (ev c fr)

namespace WatchedBy

variable {evg : Code → φ → Run (Value × φ)} {ev : Evaluator}
  (hev : WatchedBy P T home slots G evg ev) {A B D : Assigned} {g : φ} {fr : Frame}

include hev

theorem evalAll : ∀ {A B : Assigned} {cs : List Code} {ts : List Ty} {g : φ} {fr : Frame},
    HasTypes P home slots A cs ts B → G A g fr →
      Run.Alike T (SameResult G B) (evalAllOver evg cs g) (Kiln.evalAll ev cs fr)
  | _, _, _, _, _, _, .nil, hfr => .pure ⟨[], hfr⟩
  | _, _, _, _, _, _, .cons h hs, hfr => by
    refine (hev h hfr).bind fun _ _ ⟨v, hfr⟩ => ?_
    exact (evalAll hs hfr).bind fun _ _ ⟨vs, hfr⟩ => .pure ⟨v :: vs, hfr⟩

theorem evalBlock : ∀ {A B : Assigned} {cs : List Code} {ts : List Ty} {g : φ} {fr : Frame}
    {last : Value}, HasTypes P home slots A cs ts B → G A g fr →
      Run.Alike T (SameResult G B) (evalBlockOver evg last cs g) (Kiln.evalBlock ev last cs fr)
  | _, _, _, _, _, _, last, .nil, hfr => .pure ⟨last, hfr⟩
  | _, _, _, _, _, _, _, .cons h hs, hfr => (hev h hfr).bind fun _ _ ⟨_, hfr⟩ => evalBlock hs hfr

theorem evalTest {c : Code} {t : Ty} (h : HasType P home slots A c t B) (hfr : G A g fr) :
    Run.Alike T (SameResult G B) (evalTestOver evg c g) (Kiln.evalTest ev c fr) := by
  refine (hev h hfr).bind fun _ _ ⟨v, hfr⟩ => ?_
  exact (Run.Alike.lift v.asBool).bind_eq fun b => .pure ⟨b, hfr⟩

/-- Before each further turn at least as much is assigned as before the first. -/
theorem evalLoop (hS : S.Shadows slots.length G) {c body : Code} {t u : Ty}
    (h : HasType P home slots A c t B) (h' : HasType P home slots B body u D) :
    ∀ (n : Nat) {g : φ} {fr : Frame}, G A g fr →
      Run.Alike T (G B) (evalLoopOver evg c body n g) (Kiln.evalLoop ev c body n fr)
  | 0, _, _, _ => .throw _
  | n + 1, g, fr, hfr => by
    refine (hev.evalTest h hfr).bind fun _ _ ⟨go, hfr⟩ => ?_
    cases go with
    | false => exact .pure hfr
    | true =>
      refine (hev h' hfr).bind fun _ _ ⟨_, hfr⟩ => ?_
      exact evalLoop hS h h' n (hS.mono _ _ _ _ (h.subset.trans h'.subset) hfr)

end WatchedBy

variable (hT : P.Overlooks T) (hS : S.Shadows slots.length G)

include hT hS

/-- **Typed code does the same in frames and stores that agree on what it uses**, if the functions
it may call do. -/
theorem watchedBy_evalOver :
    ∀ (depth : Nat) (_ : ∀ d < depth, P.CallsAlike T lib d) (home : ModuleId),
      WatchedBy P T home slots G (evalOver S lib depth home) (eval lib depth home)
  | 0, _, _ => fun _ _ _ _ _ _ _ _ => .throw _
  | depth + 1, hcalls, home => by
    have hev := watchedBy_evalOver depth (fun d hd => hcalls d (Nat.lt_succ_of_lt hd)) home
    have hcall := hcalls depth (Nat.lt_succ_self depth)
    have hmono : ∀ {α : Type} {A B : Assigned}, A ⊆ B → ∀ (p : α × φ) (q : α × Frame),
        SameResult G B p q → SameResult G A p q := by
      rintro α A B hle _ _ ⟨a, hfr⟩
      exact ⟨a, hS.mono _ _ _ _ hle hfr⟩
    have hlt : ∀ {i : Nat} {t : Ty}, slots[i]? = some t → i < slots.length := fun ht =>
      (List.getElem?_eq_some_iff.1 ht).1
    intro A B c t g fr h hfr
    unfold evalOver eval
    cases h with
    | const hv => exact .pure ⟨_, hfr⟩
    | getLocal ht hA =>
      dsimp only
      rw [hS.get _ _ _ _ hfr hA (hlt ht)]
      exact (Run.Alike.present _).bind_eq fun v => .pure ⟨v, hfr⟩
    | setLocal ht hc hassign =>
      refine (hev hc hfr).bind ?_
      rintro _ _ ⟨v, hfr⟩
      obtain ⟨hin, g', hset, hfr'⟩ := hS.set _ _ _ _ v hfr (hlt ht)
      dsimp only
      rw [hset, if_pos hin]
      exact .pure ⟨_, hfr'⟩
    | getGlobal ht | foreignGlobal ht =>
      refine .get fun s s' hs => ?_
      rw [hT.global s s' _ _ _ hs ht]
      exact (Run.Alike.present _).bind_eq fun v => .pure ⟨v, hfr⟩
    | setGlobal ht hc hassign =>
      refine (hev hc hfr).bind ?_
      rintro _ _ ⟨v, hfr⟩
      refine (Run.Alike.modify fun s s' hs => hT.setGlobal s s' _ _ _ v hs ht).bind_eq fun _ => ?_
      exact .pure ⟨_, hfr⟩
    | block hcs => exact hev.evalBlock hcs hfr
    | branch hc hyes hno hjoins =>
      refine (hev.evalTest hc hfr).bind ?_
      rintro _ _ ⟨go, hfr⟩
      cases go with
      | true => exact (hev hyes hfr).imp (hmono hyes.subset)
      | false => exact (hev hno hfr).imp (hmono hno.subset)
    | when hc hyes hjoins =>
      refine (hev.evalTest hc hfr).bind ?_
      rintro _ _ ⟨go, hfr⟩
      cases go with
      | true => exact (hev hyes hfr).imp (hmono hyes.subset)
      | false => exact .pure ⟨_, hfr⟩
    | loop hc hbody =>
      exact (hev.evalLoop hS hc hbody patience hfr).bind fun _ _ hfr => .pure ⟨_, hfr⟩
    | binary hleft hright ht =>
      refine (hev hleft hfr).bind ?_
      rintro _ _ ⟨v, hfr⟩
      refine (hev hright hfr).bind ?_
      rintro _ _ ⟨w, hfr⟩
      exact (Run.Alike.lift _).bind_eq fun a => .pure ⟨a, hfr⟩
    | not hc =>
      refine (hev.evalTest hc hfr).bind ?_
      rintro _ _ ⟨b, hfr⟩
      exact .pure ⟨_, hfr⟩
    | and hleft hright =>
      refine (hev.evalTest hleft hfr).bind ?_
      rintro _ _ ⟨go, hfr⟩
      cases go with
      | false => exact .pure ⟨_, hfr⟩
      | true =>
        refine (hev.evalTest hright hfr).bind ?_
        rintro _ _ ⟨b, hfr⟩
        exact .pure ⟨_, hS.mono _ _ _ _ hright.subset hfr⟩
    | or hleft hright =>
      refine (hev.evalTest hleft hfr).bind ?_
      rintro _ _ ⟨go, hfr⟩
      cases go with
      | true => exact .pure ⟨_, hfr⟩
      | false =>
        refine (hev.evalTest hright hfr).bind ?_
        rintro _ _ ⟨b, hfr⟩
        exact .pure ⟨_, hS.mono _ _ _ _ hright.subset hfr⟩
    | @call _ _ callee _ _ _ _ hf hargs hassign =>
      refine (hev.evalAll hargs hfr).bind ?_
      rintro _ _ ⟨vs, hfr⟩
      cases callee with
      | own i => exact (hcall _ _ vs hf).bind_eq fun v => .pure ⟨v, hfr⟩
      | foreign other i => exact (hcall _ _ vs hf).bind_eq fun v => .pure ⟨v, hfr⟩
    | fieldPtr hc =>
      refine (hev hc hfr).bind ?_
      rintro _ _ ⟨v, hfr⟩
      exact (Run.Alike.lift v.asPtr).bind_eq fun _ => .pure ⟨_, hfr⟩
    | fieldGet hc hl hf =>
      refine (hev hc hfr).bind ?_
      rintro _ _ ⟨v, hfr⟩
      exact (Run.Alike.lift _).bind_eq fun w => .pure ⟨w, hfr⟩
    | make hl hcs hassign =>
      refine (hev.evalAll hcs hfr).bind ?_
      rintro _ _ ⟨vs, hfr⟩
      exact .pure ⟨_, hfr⟩
    | load hc =>
      refine (hev hc hfr).bind ?_
      rintro _ _ ⟨v, hfr⟩
      refine (Run.Alike.lift v.asPtr).bind_eq fun addr => .get fun s s' hs => ?_
      rw [hT.heap s s' hs]
      refine (Run.Alike.lift _).bind_eq fun bytes => ?_
      exact (Run.Alike.lift _).bind_eq fun w => .pure ⟨w, hfr⟩
    | store hplace hvalue =>
      refine (hev hplace hfr).bind ?_
      rintro _ _ ⟨p, hfr⟩
      refine (hev hvalue hfr).bind ?_
      rintro _ _ ⟨v, hfr⟩
      refine (Run.Alike.lift _).bind_eq fun bytes => (Run.Alike.lift p.asPtr).bind_eq fun addr => ?_
      exact (hT.updateHeap _).bind_eq fun _ => .pure ⟨_, hfr⟩
    | cast hc hcast =>
      refine (hev hc hfr).bind ?_
      rintro _ _ ⟨v, hfr⟩
      exact (Run.Alike.lift _).bind_eq fun w => .pure ⟨w, hfr⟩
    | offset hplace hcount =>
      refine (hev hplace hfr).bind ?_
      rintro _ _ ⟨p, hfr⟩
      refine (hev hcount hfr).bind ?_
      rintro _ _ ⟨n, hfr⟩
      refine (Run.Alike.lift n.asInt).bind_eq fun k => (Run.Alike.lift p.asPtr).bind_eq fun _ => ?_
      exact .pure ⟨_, hfr⟩
    | addr hc =>
      refine (hev hc hfr).bind ?_
      rintro _ _ ⟨v, hfr⟩
      exact (Run.Alike.lift v.asPtr).bind_eq fun _ => .pure ⟨_, hfr⟩
    | seqLit hcs =>
      refine (hev.evalAll hcs hfr).bind ?_
      rintro _ _ ⟨vs, hfr⟩
      exact (Run.Alike.lift _).bind_eq fun w => .pure ⟨w, hfr⟩
    | seqLen hc =>
      refine (hev hc hfr).bind ?_
      rintro _ _ ⟨v, hfr⟩
      exact (Run.Alike.lift v.asSeq).bind_eq fun _ => .pure ⟨_, hfr⟩
    | seqCopy hplace hseq =>
      refine (hev hplace hfr).bind ?_
      rintro _ _ ⟨p, hfr⟩
      refine (hev hseq hfr).bind ?_
      rintro _ _ ⟨v, hfr⟩
      refine (Run.Alike.lift p.asPtr).bind_eq
        fun addr => (Run.Alike.lift v.asSeq).bind_eq fun seq => ?_
      exact (hT.updateHeap _).bind_eq fun _ => .pure ⟨_, hfr⟩

end Frames

/-! ## Functions -/

/-- Typed code does the same in one frame from stores that agree on what it uses. -/
theorem HasType.eval_alike (hT : P.Overlooks T) {depth : Nat}
    (hcalls : ∀ d < depth, P.CallsAlike T lib d) {A B : Assigned} {c : Code} {t : Ty} {fr : Frame}
    (h : HasType P home slots A c t B) (hfr : fr.length = slots.length) :
    Run.Alike T (fun p q => p.1 = q.1) (eval lib depth home c fr) (eval lib depth home c fr) := by
  have hrun :=
    watchedBy_evalOver hT (Slots.plain_shadows slots.length) depth hcalls home h ⟨rfl, hfr⟩
  rw [evalOver_plain] at hrun
  exact hrun.imp fun _ _ ⟨_, _⟩ => rfl

/-- **A typed function does the same in stores that agree on what it uses.** -/
theorem Interface.Describes.callsAlike (hP : P.Describes lib) (hT : P.Overlooks T) (depth : Nat) :
    P.CallsAlike T lib depth := by
  induction depth using Nat.strong_induction_on with
  | _ depth ih =>
    rintro handle ⟨params, result⟩ args hfunction
    obtain ⟨f, hfind, rfl, rfl, htyped⟩ := hP.function handle params result hfunction
    have hpresent : Run.Alike T (fun g g' => g = f ∧ g' = f) (Run.present (lib.function? handle))
        (Run.present (lib.function? handle)) := by
      rw [hfind]
      exact .pure ⟨rfl, rfl⟩
    refine hpresent.bind fun _ _ ⟨hg, hg'⟩ => ?_
    subst hg hg'
    split
    · exact .throw _
    · rename_i hlen
      unfold Function.Typed at htyped
      split at htyped
      · rename_i n c hbody
        obtain ⟨slots, A, u, B, rfl, hparams, -, hcode, -⟩ := htyped
        rw [hbody]
        have hcount : args.length ≤ slots.length := by
          rw [not_not.1 hlen, ← List.length_map]
          exact hparams.length_le
        have hfr : (args ++ List.replicate (slots.length - args.length) Value.unit).length =
            slots.length := by
          rw [List.length_append, List.length_replicate]
          omega
        exact (hcode.eval_alike hT ih hfr).bind fun _ _ h => .pure h
      · rename_i op hbody
        rw [hbody]
        exact hT.native op args

/-- Code that takes no arguments does the same in stores that agree on what it uses. -/
theorem Interface.Describes.evaluate_alike (hP : P.Describes lib) (hT : P.Overlooks T)
    {t : Ty} {n : Nat} {c : Code} (h : c.Takes P home [] t n) :
    Run.Alike T Eq (Kiln.evaluate lib home n c) (Kiln.evaluate lib home n c) := by
  obtain ⟨slots, A, u, B, rfl, -, -, hcode, -⟩ := h
  exact (hcode.eval_alike hT (fun d _ => hP.callsAlike hT d) List.length_replicate).bind
    fun _ _ h => .pure h

/-- Code of the module `home` whose runs, with so many arguments in a frame of `n` slots, read no
slot before it is assigned: over guarded frames they end as they do over plain ones. -/
def Code.ReadsAssigned (c : Code) (home : ModuleId) (arity n : Nat) : Prop :=
  ∀ (lib : Library) (depth : Nat) (args : List Value), args.length = arity →
    (·.1) <$> evalOver Slots.guarded lib depth home c (guardedFrame args n) =
      (·.1) <$> eval lib depth home c (args ++ List.replicate (n - args.length) .unit)

/-- **Typed code reads no slot before it is assigned**, where types do not let slots be
unassigned. -/
theorem Code.Takes.readsAssigned (hset : ¬P.laxity.unset) {params : List Ty} {t : Ty}
    {n : Nat} {c : Code} (h : c.Takes P home params t n) :
    c.ReadsAssigned home params.length n := by
  intro lib depth args hargs
  obtain ⟨slots, A, u, B, rfl, hparams, hA, hcode, -⟩ := h
  have hstart := guards_start (A := A) (hargs ▸ hparams.length_le)
    (hargs ▸ hA.resolve_left hset)
  have hcalls : ∀ d < depth, P.CallsAlike Eq lib d := fun _ _ _ _ _ _ => .refl _
  have hrun :=
    watchedBy_evalOver P.overlooks_eq
      (Slots.guarded_shadows slots.length) depth hcalls home hcode hstart
  exact (hrun.bind fun _ _ ⟨v, _⟩ => .pure rfl : Run.Alike Eq Eq _ _).eq

end Kiln
