import Kiln.Proofs.Typing.Watching
import Kiln.Proofs.Workspace.Calls
/-!
# Local variables

In a careful unit, every function and every initialiser reads its local variables only after they
were assigned in the same call (`Reached.locals_assigned`), whatever the functions do that it calls.
A unit is careful if no operand of an `and` or an `or` behind the first declares a variable in the
scope around the form. Without that a variable may be in scope whose `let` was never run
(`Reached.local_read_unassigned`).
-/

namespace Kiln

variable {w : Workspace}

/-- **Local variables are assigned before they are read**, in every run of a function or an
initialiser of a careful unit. -/
theorem Reached.locals_assigned (h : Reached w) {deps : List Module}
    (hdeps : ∀ d ∈ deps, w.library.find? d.id = some d) {name : String} {root : Tree}
    {u : LoweredUnit} (hlower : lowerUnit w.library name deps root = .ok u)
    (hcareful : root.careful = true) :
    (∀ f ∈ u.module.functions, ∀ n c, f.body = .code n c →
        c.ReadsAssigned u.module.id f.params.length n) ∧
      ∀ init ∈ u.initialisers, init.code.ReadsAssigned u.module.id 0 init.slots := by
  obtain ⟨names, forms, globals, hl⟩ := lowered_of_lowerUnit hlower
  have hw := h.sound
  have hmixed : (⟨False, True⟩ : Laxity).mixed := trivial
  refine ⟨fun f hf n c hbody => ?_, fun init hinit => ?_⟩
  · have htyped := hl.functions_typed hdeps hw.base hw.grounded hmixed (.inr hcareful) f hf
    rw [Function.Typed, hbody] at htyped
    rw [← List.length_map]
    exact Code.Takes.readsAssigned id htyped
  · obtain ⟨g, -, htakes⟩ := exists_of_forall₂
      (hl.initialisers_typed hdeps hw.base hw.grounded hmixed (.inr hcareful)) hinit
    exact Code.Takes.readsAssigned id htakes

/-- `(fun up ((n i64)) i64 (let x 0) (while (and (< x n) (< x 9)) (let y (+ x 1)) (set x y)) x)` -/
def upUnit : Tree :=
  .list [.word "fun", .word "up", .list [.list [.word "n", .word "i64"]], .word "i64",
    .list [.word "let", .word "x", .number 0],
    .list [.word "while",
      .list [.word "and", .list [.word "<", .word "x", .word "n"],
        .list [.word "<", .word "x", .number 9]],
      .list [.word "let", .word "y", .list [.word "+", .word "x", .number 1]],
      .list [.word "set", .word "x", .word "y"]],
    .word "x"]

/-- The function is written in the language. -/
def Function.isCode (f : Function) : Bool :=
  match f.body with
  | .code _ _ => true
  | .native _ => false

theorem Reached.locals_assigned_up : ∃ u f n c,
    lowerUnit (Workspace.initial 4096 (.empty "/")).library "small" [] upUnit = .ok u ∧
      f ∈ u.module.functions ∧ f.body = .code n c ∧
        c.ReadsAssigned u.module.id f.params.length n := by
  have hcheck : ((lowerUnit Library.initial "small" [] upUnit).toOption.any fun u =>
      u.module.functions.any Function.isCode) = true := by decide
  obtain ⟨u, hu, hfunction⟩ := (Option.any_eq_true _ _).1 hcheck
  obtain ⟨f, hf, hbody⟩ := List.any_eq_true.1 hfunction
  have hlower : lowerUnit Library.initial "small" [] upUnit = .ok u := by
    generalize lowerUnit Library.initial "small" [] upUnit = r at hu
    cases r with
    | ok u' =>
      cases hu
      rfl
    | error e => cases hu
  unfold Function.isCode at hbody
  split at hbody
  · rename_i n c heq
    refine ⟨u, f, n, c, hlower, hf, heq, ?_⟩
    exact (Reached.locals_assigned (.initial 4096 (.empty "/")) (fun d hd => by cases hd) hlower
      (by decide)).1 f hf n c heq
  · cases hbody

/-- `(fun f () i64 (and false (== (let x 5) ())) x)` -/
def skippedUnit : Tree :=
  .list [.word "fun", .word "f", .list [], .word "i64",
    .list [.word "and", .leaf (.bool false) default,
      .list [.word "==", .list [.word "let", .word "x", .number 5], .list []]],
    .word "x"]

/-- The run gives unit. -/
def givesUnit : EStateM.Result Stop Store Value → Bool
  | .ok .unit _ => true
  | _ => false

/-- A run with slots that are guarded ends by reading one that is not assigned; the run without does
not. -/
def goesAstray : EStateM.Result Stop Store (Value × List (Option Value)) →
    EStateM.Result Stop Store (Value × Frame) → Bool
  | .error (.halt .stray) _, .ok _ _ => true
  | _, _ => false

/-- The function goes astray in a module. -/
def Function.goesAstray (w : Workspace) (home : ModuleId) (f : Function) : Bool :=
  match f.body with
  | .code n c =>
    Kiln.goesAstray (evalOver Slots.guarded w.library maxDepth home c (guardedFrame [] n) w.store)
      (eval w.library maxDepth home c (List.replicate n .unit) w.store)
  | .native _ => false

/-- **A variable may be read whose `let` was never run**: the function, which is declared to give a
number, reads a slot that nothing was assigned to and gives the unit it finds there. -/
theorem Reached.local_read_unassigned :
    ∃ m w f n c s, Workspace.afterUnit? skippedUnit = some (m, w) ∧
    Reached w ∧ w.library.function? ⟨m.id, 0⟩ = some f ∧ f.params = [] ∧ f.result = .i64 ∧
      f.body = .code n c ∧ Kiln.call w.library ⟨m.id, 0⟩ [] w.store = .ok .unit s ∧
        (∃ s', evalOver Slots.guarded w.library maxDepth m.id c (guardedFrame [] n) w.store =
          .error (.halt .stray) s') ∧ ¬c.ReadsAssigned m.id 0 n := by
  obtain ⟨m, w, hafter, hcheck⟩ := Workspace.exists_afterUnit skippedUnit
    (fun m w =>
      ((w.library.function? ⟨m.id, 0⟩).any fun f =>
        f.params == [] && f.result == .i64 && f.goesAstray w m.id) &&
      givesUnit (Kiln.call w.library ⟨m.id, 0⟩ [] w.store)) (by decide)
  obtain ⟨hfun, hcall⟩ := Bool.and_eq_true_iff.1 hcheck
  obtain ⟨f, hf, hsig⟩ := (Option.any_eq_true _ _).1 hfun
  rw [Bool.and_eq_true, Bool.and_eq_true, beq_iff_eq, beq_iff_eq] at hsig
  obtain ⟨⟨hparams, hresult⟩, hbody⟩ := hsig
  unfold Function.goesAstray at hbody
  split at hbody
  · rename_i n c hcode
    unfold Kiln.goesAstray at hbody
    split at hbody
    · rename_i s₁ p s₂ hguarded hplain
      unfold givesUnit at hcall
      split at hcall
      · rename_i s hrun
        refine ⟨m, w, f, n, c, s, hafter, .afterUnit hafter, hf, hparams, hresult, hcode, hrun,
          ⟨s₁, hguarded⟩, fun h => ?_⟩
        have hsame : EStateM.map _ _ w.store = EStateM.map _ _ w.store :=
          congrFun (h w.library maxDepth [] rfl) w.store
        unfold EStateM.map at hsame
        rw [List.nil_append, List.length_nil, Nat.sub_zero, hguarded, hplain] at hsame
        cases hsame
      · cases hcall
    · cases hbody
  · cases hbody

end Kiln
