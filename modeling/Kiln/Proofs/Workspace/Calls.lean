import Kiln.Proofs.Workspace.Reached
/-!
# Calls in reached workspaces

A call with arguments of the parameters' types ends in an orderly way (`Reached.call_orderly`): what
compiled code asks of values and of modules is there. The value that it gives is of the result's
type as far as values are held to their types (`Reached.call_conforms`). Two things are not held to
them: a slot or a global that nothing was assigned to holds unit, whatever its type; and an `if`
whose branches do not agree is of type unit, whatever it gives. A function that needs no code in
which either is found keeps its type exactly.
-/

namespace Kiln

open Value

variable {w : Workspace} {handle : FunctionHandle} {f : Function} {args : List Value}

/-! ## Small units -/

/-- A symbol, wherever it was read. -/
def Tree.word (name : String) : Tree := .leaf (.sym name) default

/-- A number, wherever it was read. -/
def Tree.number (n : Int64) : Tree := .leaf (.int n) default

/-- A list, wherever it was read. -/
def Tree.list (items : List Tree) : Tree := .node items default

/-- The module of a unit that is compiled against nothing in a small workspace, and the workspace
behind it. -/
def Workspace.afterUnit? (root : Tree) : Option (Module × Workspace) :=
  match (Work.compile (.fragment "small" ⟨root, ⟨"small", ""⟩⟩) []).run
    (.initial 4096 (.empty "/")) with
  | .ok (.ok m) w => some (m, w)
  | _ => none

theorem Workspace.afterUnit?_eq_some {root : Tree} {m : Module}
    (h : afterUnit? root = some (m, w)) :
    (Work.compile (.fragment "small" ⟨root, ⟨"small", ""⟩⟩) []).run (.initial 4096 (.empty "/")) =
      .ok (.ok m) w := by
  unfold afterUnit? at h
  split at h
  · cases h
    assumption
  · cases h

theorem Workspace.afterUnit?_of_run {root : Tree} {m : Module}
    (h : (Work.compile (.fragment "small" ⟨root, ⟨"small", ""⟩⟩) []).run
      (.initial 4096 (.empty "/")) =
      .ok (.ok m) w) : afterUnit? root = some (m, w) := by
  rw [afterUnit?, h]

theorem Reached.afterUnit {root : Tree} {m : Module} (h : Workspace.afterUnit? root = some (m, w)) :
    Reached w :=
  .compile (.initial 4096 (.empty "/")) (fun d hd => by cases hd) (Workspace.afterUnit?_eq_some h)

/-- What is found of the module of a unit and of the workspace behind it. -/
theorem Workspace.exists_afterUnit (root : Tree) (check : Module → Workspace → Bool)
    (h : ((afterUnit? root).any fun p => check p.1 p.2) = true) :
    ∃ m w, afterUnit? root = some (m, w) ∧ check m w = true := by
  obtain ⟨⟨m, w⟩, hsome, hcheck⟩ := (Option.any_eq_true _ _).1 h
  exact ⟨m, w, hsome, hcheck⟩

/-! ## Calls are orderly -/

/-- **Compiled code asks for nothing that is not there.** A call of a function with arguments of its
parameters' types neither asks a struct for a field that it lacks, nor calls a function with too
many or too few arguments, nor names a slot, a global or a function that does not exist. -/
theorem Reached.call_orderly (h : Reached w) (hf : w.library.function? handle = some f)
    (hargs : ConformsAll w.library.layouts args (f.params.map (·.2))) :
    ∀ e s, Kiln.call w.library handle args w.store = .error e s → e.Orderly := by
  intro e s hcall
  exact ((h.sound.call_ends hf hargs).of_error h.sound.keeps hcall).2

/-- `(struct cell (value i64)) (fun share ((c cell) (n i64)) i64 (/ (. c value) n))` -/
def shareUnit : Tree :=
  .list [.word "do",
    .list [.word "struct", .word "cell", .list [.word "value", .word "i64"]],
    .list [.word "fun", .word "share",
      .list [.list [.word "c", .word "cell"], .list [.word "n", .word "i64"]], .word "i64",
      .list [.word "/", .list [.word ".", .word "c", .word "value"], .word "n"]]]

theorem Reached.call_orderly_share : ∃ m w f e s, Workspace.afterUnit? shareUnit = some (m, w) ∧
    w.library.function? ⟨⟨1⟩, 0⟩ = some f ∧
      Kiln.call w.library ⟨⟨1⟩, 0⟩ [.struct ⟨⟨1⟩, "cell"⟩ [.int 6], .int 0] w.store = .error e s ∧
        e.Orderly := by
  obtain ⟨m, w, hafter, hcheck⟩ := Workspace.exists_afterUnit shareUnit
    (fun _ w =>
      (w.library.function? ⟨⟨1⟩, 0⟩).any (fun f =>
        f.params.map (·.2) == [.struct ⟨⟨1⟩, "cell"⟩, .i64]) &&
      (w.library.layouts.find? ⟨⟨1⟩, "cell"⟩).any (fun l => l.fields.map (·.type) == [.i64]) &&
      match Kiln.call w.library ⟨⟨1⟩, 0⟩ [.struct ⟨⟨1⟩, "cell"⟩ [.int 6], .int 0] w.store with
      | .error _ _ => true
      | .ok _ _ => false) (by decide)
  rw [Bool.and_eq_true, Bool.and_eq_true] at hcheck
  obtain ⟨⟨hfun, hlayout⟩, hrun⟩ := hcheck
  obtain ⟨f, hf, hparams⟩ := (Option.any_eq_true _ _).1 hfun
  obtain ⟨l, hl, hfields⟩ := (Option.any_eq_true _ _).1 hlayout
  have hargs : ConformsAll w.library.layouts [.struct ⟨⟨1⟩, "cell"⟩ [.int 6], .int 0]
      (f.params.map (·.2)) := by
    rw [beq_iff_eq.1 hparams]
    refine ⟨⟨rfl, l, hl, ?_⟩, trivial, trivial⟩
    rw [beq_iff_eq.1 hfields]
    exact ⟨trivial, trivial⟩
  split at hrun
  · rename_i e s hcall
    exact ⟨m, w, f, e, s, hafter, hf, hcall,
      Reached.call_orderly (.afterUnit hafter) hf hargs e s hcall⟩
  · cases hrun

/-! ## What calls give -/

/-- Code whose last value is dropped gives unit. -/
theorem eval_dropped {lib : Library} {home : ModuleId} {c : Code} {fr : Frame} {p : Value × Frame}
    {s s' : Store} : ∀ {depth : Nat},
      eval lib depth home (.block [c, .const .unit]) fr s = .ok p s' → p.1 = .unit
  | 0, h | 1, h => by cases h
  | depth + 2, h => by
    obtain ⟨⟨v, fr₁⟩, s₁, -, hlast⟩ := ok_of_run_bind h
    obtain ⟨⟨u, fr₂⟩, s₂, hunit, hend⟩ := ok_of_run_bind hlast
    cases hunit
    cases hend
    rfl

/-- **The value of a call stands for the type of the result**; and it is of that type if the
function needs no more than an interface `P` whose slots are assigned before they are read, whose
globals hold values of their types, and whose branches agree, unless unit is not found in the type
at all. A function whose last value is dropped, as it is not of the type unit that the function
returns, returns unit whatever it needs. -/
theorem Reached.call_conforms (h : Reached w) (hf : w.library.function? handle = some f)
    (hargs : ConformsAll w.library.layouts args (f.params.map (·.2))) {v : Value} {s : Store}
    (hcall : Kiln.call w.library handle args w.store = .ok v s) :
    StandsFor .full w.library.layouts v f.result ∧
      (∀ P : Interface, P.Describes w.library → P.Keeps w.store →
        P.function handle = some (f.params.map (·.2), f.result) →
          ¬P.laxity.unset → (P.laxity.mixed → f.result.Unitless w.library.layouts) →
            Conforms w.library.layouts v f.result) ∧
      ∀ n c, f.body = .code n (.block [c, .const .unit]) → v = .unit := by
  refine ⟨((h.sound.call_ends hf hargs).of_ok h.sound.keeps hcall).2, ?_, ?_⟩
  · intro P hP hkeeps hfunction hset hunitless
    rw [← hP.layouts] at hargs hunitless ⊢
    exact ((hP.call hfunction hargs.allStandFor).of_ok hkeeps hcall).2.conforms_of hset hunitless
  · intro n c hbody
    obtain ⟨g, s₁, hpresent, hrest⟩ := ok_of_run_bind hcall
    rw [hf] at hpresent
    cases hpresent
    rw [hbody] at hrest
    split at hrest
    · cases hrest
    · obtain ⟨p, s₂, heval, hvalue⟩ := ok_of_run_bind hrest
      cases hvalue
      exact eval_dropped heval

/-- `(fun pick ((n i64)) i64 (if (== n 0) 5) (+ n 1))`, where the value of the `if` is dropped. -/
def pickUnit : Tree :=
  .list [.word "fun", .word "pick", .list [.list [.word "n", .word "i64"]], .word "i64",
    .list [.word "if", .list [.word "==", .word "n", .number 0], .number 5],
    .list [.word "+", .word "n", .number 1]]

theorem Reached.call_conforms_pick : ∃ m w f v s, Workspace.afterUnit? pickUnit = some (m, w) ∧
    w.library.function? ⟨⟨1⟩, 0⟩ = some f ∧
      Kiln.call w.library ⟨⟨1⟩, 0⟩ [.int 0] w.store = .ok v s ∧
        Conforms w.library.layouts v f.result := by
  obtain ⟨m, w, hafter, hcheck⟩ := Workspace.exists_afterUnit pickUnit
    (fun _ w =>
      (w.library.function? ⟨⟨1⟩, 0⟩).any
        (fun f => f.params.map (·.2) == [.i64] && f.result == .i64) &&
      w.library.modules.toList.all (·.globals.isEmpty) &&
      match Kiln.call w.library ⟨⟨1⟩, 0⟩ [.int 0] w.store with
      | .ok _ _ => true
      | .error _ _ => false) (by decide)
  rw [Bool.and_eq_true, Bool.and_eq_true] at hcheck
  obtain ⟨⟨hfun, hglobals⟩, hrun⟩ := hcheck
  obtain ⟨f, hf, hsig⟩ := (Option.any_eq_true _ _).1 hfun
  rw [Bool.and_eq_true, beq_iff_eq, beq_iff_eq] at hsig
  have hreached : Reached w := .afterUnit hafter
  have htyped : w.library.Typed ⟨False, True⟩ :=
    (Workspace.sound_initial 4096 (.empty "/") .full).compile_typed
      (Library.typed_initial _) trivial (fun d hd => by cases hd)
      (.inr fun g hg => by cases hg; decide)
      (Workspace.afterUnit?_eq_some hafter)
  have hkeeps : (w.library.interface ⟨False, True⟩).Keeps w.store := by
    refine ⟨hreached.sound.keeps.size, fun home i t ht => ?_⟩
    obtain ⟨d, hd, ht⟩ := Option.bind_eq_some_iff.1 ht
    obtain ⟨hlt, rfl⟩ := Array.getElem?_eq_some_iff.1 hd
    rw [List.isEmpty_iff.1 (List.all_eq_true.1 hglobals _ (Array.getElem_mem_toList hlt))] at ht
    cases ht
  split at hrun
  · rename_i v s hcall
    refine ⟨m, w, f, v, s, hafter, hf, hcall, ?_⟩
    refine (Reached.call_conforms hreached hf (by rw [hsig.1]; exact ⟨trivial, trivial⟩) hcall).2.1
      (w.library.interface ⟨False, True⟩) htyped.describes hkeeps ?_ id fun _ => ?_
    · exact Option.map_eq_some_iff.2 ⟨f, hf, rfl⟩
    · rw [hsig.2]
      exact .scalar (by decide) (fun ref => by simp)
  · cases hrun

/-- `(fun f () unit (if true 5))` -/
def numberUnit : Tree :=
  .list [.word "fun", .word "f", .list [], .word "unit",
    .list [.word "if", .leaf (.bool true) default, .number 5]]

/-- The run gives the number five. -/
def givesFive : EStateM.Result Stop Store Value → Bool
  | .ok (.int n) _ => n == 5
  | _ => false

/-- **A function that is declared to return unit may give a number.** -/
theorem Reached.call_gives_number : ∃ m w f s, Workspace.afterUnit? numberUnit = some (m, w) ∧
    Reached w ∧ w.library.function? ⟨⟨1⟩, 0⟩ = some f ∧ f.params = [] ∧ f.result = .unit ∧
      Kiln.call w.library ⟨⟨1⟩, 0⟩ [] w.store = .ok (.int 5) s ∧
        ¬Conforms w.library.layouts (.int 5) f.result := by
  obtain ⟨m, w, hafter, hcheck⟩ := Workspace.exists_afterUnit numberUnit
    (fun _ w =>
      (w.library.function? ⟨⟨1⟩, 0⟩).any (fun f => f.params == [] && f.result == .unit) &&
      givesFive (Kiln.call w.library ⟨⟨1⟩, 0⟩ [] w.store)) (by decide)
  obtain ⟨hfun, hrun⟩ := Bool.and_eq_true_iff.1 hcheck
  obtain ⟨f, hf, hsig⟩ := (Option.any_eq_true _ _).1 hfun
  rw [Bool.and_eq_true, beq_iff_eq, beq_iff_eq] at hsig
  unfold givesFive at hrun
  split at hrun
  · rename_i n s hcall
    rw [beq_iff_eq.1 hrun] at hcall
    refine ⟨m, w, f, s, hafter, .afterUnit hafter, hf, hsig.1, hsig.2, hcall, ?_⟩
    rw [hsig.2]
    exact id
  · cases hrun

end Kiln
