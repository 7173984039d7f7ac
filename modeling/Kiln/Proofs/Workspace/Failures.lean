import Kiln.Proofs.Machine.Effects
import Kiln.Proofs.Workspace.Calls
/-!
# Units that do not compile

A unit that is not read or not lowered leaves everything as it was. One whose initialisers fail has
done what they did until then, and that is told by their effects: what none of them may do, nor any
function that they come to call, has not been done (`Reached.failed_compile_spares`). Otherwise a
failure does show in the modules that were there before (`Reached.failed_compile_counts`).
-/

namespace Kiln

open Work

/-! ## What is spared -/

/-- What the effects allowed cannot do to the first `n` modules and to memory has not been done. -/
def Store.Spared (s : Store) (may : Effect → Bool) (n : Nat) (before : Store) : Prop :=
  (may .memory = false → s.heap = before.heap) ∧
    ∀ home : ModuleId, home.index < n → may (.assign home) = false →
      s.globals[home.index]? = before.globals[home.index]?

namespace Store.Spared

variable {may : Effect → Bool} {n : Nat} {before s : Store}

/-- A global that may be assigned, or that is not among those of the first modules. -/
theorem setGlobal {home : ModuleId} (hhome : may (.assign home) = true ∨ n ≤ home.index) (i : Nat)
    (v : Value) (h : s.Spared may n before) : (s.setGlobal home i v).Spared may n before := by
  refine ⟨h.1, fun other hlt hspared => ?_⟩
  have hne : home.index ≠ other.index := by
    intro heq
    rcases hhome with hmay | hle
    · have hsame : home = other := congrArg ModuleId.mk heq
      rw [hsame, hspared] at hmay
      cases hmay
    · omega
  rw [← h.2 other hlt hspared, Store.setGlobal, Array.getElem?_modify, if_neg hne]

theorem preserve (may : Effect → Bool) (n : Nat) (before : Store) :
    Effect.Preserve may (·.Spared may n before) where
  print _ _ h := h
  memory hmay _ _ h := ⟨fun hspared => absurd (hmay.symm.trans hspared) (by decide), h.2⟩
  assign _ hmay _ i v h := h.setGlobal (.inl hmay) i v

theorem install {m : Module} (hsize : before.globals.size = n) :
    (before.install m).Spared may n before := by
  refine ⟨fun _ => rfl, fun home hlt _ => ?_⟩
  rw [Store.install, Array.getElem?_push_lt (hsize ▸ hlt), Array.getElem?_eq_getElem (hsize ▸ hlt)]

end Store.Spared

/-- **Initialisers preserve what their code and the assignment of its value preserve**, however they
end. -/
theorem Work.initialiseFrom_preserves {lib : Library} {m : Module} {origin : Origin}
    {I : Store → Prop} {r : Except CompileError Unit} {w' : Workspace}
    (hassign : ∀ s i v, I s → I (s.setGlobal m.id i v)) : ∀ {inits : List Initialiser} {index : Nat}
      {w : Workspace}, w.library = lib →
      (∀ init ∈ inits, Run.Preserves I (evaluate lib m.id init.slots init.code)) → I w.store →
        (initialiseFrom m origin index inits).run w = .ok r w' → I w'.store
  | [], index, w, _, _, hI, h => by
    cases h
    exact hI
  | init :: inits, index, w, hlib, hinits, hI, h => by
    subst hlib
    have hfirst := hinits init List.mem_cons_self w.store hI
    rcases initialiseFrom_outcome h with ⟨w₁, hinit, hrest⟩ | ⟨f, global, hinit, rfl⟩
    · rcases initialise_outcome hinit with ⟨v, s, -, hrun, rfl⟩ | ⟨_, _, hcases, -⟩
      · rw [hrun] at hfirst
        exact initialiseFrom_preserves hassign
          (w := { w with store := s.setGlobal m.id index v }) rfl
          (fun init hmem => hinits init (List.mem_cons_of_mem _ hmem))
          (hassign s index v hfirst) hrest
      · cases hcases
    · rcases initialise_outcome hinit with ⟨_, _, hcases, -⟩ | ⟨f', s, -, hrun, rfl⟩
      · cases hcases
      · rw [hrun] at hfirst
        exact hfirst

/-- What fails with initialisers says so. -/
theorem Work.fault_of_initialiseFrom {m : Module} {origin : Origin} {e : CompileError}
    {w' : Workspace} :
    ∀ {inits : List Initialiser} {index : Nat} {w : Workspace},
      (initialiseFrom m origin index inits).run w = .ok (.error e) w' →
        ∃ global f, e.fault = .initialiser global f
  | [], _, _, h => by cases h
  | init :: inits, _, _, h => by
    rcases initialiseFrom_outcome h with ⟨w₁, -, hrest⟩ | ⟨f, global, -, hr⟩
    · exact fault_of_initialiseFrom hrest
    · cases hr
      exact ⟨global, f, rfl⟩

/-! ## Failures -/

variable {w w' : Workspace}

/-- The initialisers of the unit have none but the effects allowed and call none but some
functions. -/
def SourceUnit.Within (unit : SourceUnit) (lib : Library) (deps : List Module) (may : Effect → Bool)
    (callable : FunctionHandle → Bool) : Prop :=
  ∀ u origin, unit.lower lib deps = .ok (u, origin) →
    ∀ init ∈ u.initialisers, init.code.within may callable u.module.id = true

/-- **A unit that does not compile does no more than its initialisers may.** If it was not read or
not lowered, nothing changed at all. And whatever effects its initialisers and the functions that
they call have at most, memory is as before unless they may change it, and so are the globals of
every module that was there before unless they may assign them. -/
theorem Reached.failed_compile_spares (h : Reached w) {unit : SourceUnit} {deps : List Module}
    {e : CompileError} (hrun : (Work.compile unit deps).run w = .ok (.error e) w') :
    ((∀ global f, e.fault ≠ .initialiser global f) → w' = w) ∧
      ∀ (may : Effect → Bool) (callable : FunctionHandle → Bool), w'.library.Confines may callable →
        unit.Within w.library deps may callable →
          (may .memory = false → w'.store.heap = w.store.heap) ∧
          ∀ m, w.library.find? m.id = some m → may (.assign m.id) = false →
            ∀ name, w'.global? m name = w.global? m name := by
  rcases compile_outcome hrun with ⟨_, -, rfl⟩ | ⟨u, origin, r', hlower, hlibrary, hinit, hr⟩
  · exact ⟨fun _ => rfl, fun _ _ _ _ => ⟨fun _ => rfl, fun _ _ _ _ => rfl⟩⟩
  obtain ⟨_, -, hunit⟩ := lower_outcome hlower
  obtain ⟨names, forms, globals, hl⟩ := lowered_of_lowerUnit hunit
  obtain rfl : r' = .error e := by
    rcases hr with ⟨_, rfl, hcases⟩ | ⟨-, hcases⟩
    · cases hcases
      rfl
    · cases hcases
  refine ⟨fun hno => ?_, fun may callable hconfines hwithin => ?_⟩
  -- the unit was lowered, so an initialiser failed
  · obtain ⟨global, f, hfault⟩ := fault_of_initialiseFrom hinit
    exact absurd hfault (hno global f)
  -- nothing else ran, and the globals of the unit itself lie behind all that was there
  have hsize : w.store.globals.size = w.library.modules.size := h.sound.keeps.size
  have hpreserve := Store.Spared.preserve may w.library.modules.size w.store
  have hnew : w.library.modules.size ≤ u.module.id.index := by
    rw [hl.id]
    exact Nat.le_refl _
  rw [hlibrary] at hconfines
  obtain ⟨hheap, hglobals⟩ := initialiseFrom_preserves
    (I := (·.Spared may w.library.modules.size w.store))
    (fun s i v hs => hs.setGlobal (.inr hnew) i v)
    (rfl : (installed w u.module).library = w.library.push u.module)
    (fun init hmem => evaluate_preserves hpreserve hconfines
      (hwithin u origin hlower init hmem) init.slots)
    (Store.Spared.install hsize) hinit
  refine ⟨hheap, fun m hm hspared name => ?_⟩
  have hlt : m.id.index < w.library.modules.size := (Array.getElem?_eq_some_iff.1 hm).1
  have hsame := hglobals m.id hlt hspared
  unfold Workspace.global? Store.global?
  rw [hsame]

/-! ## Two units -/

/-- The error of a second unit that is compiled against the module of the first and fails, and the
workspace behind it. -/
def Workspace.afterFailure? (w : Workspace) (m : Module) (root : Tree) :
    Option (CompileError × Workspace) :=
  match (Work.compile (.fragment "second" ⟨root, ⟨"second", ""⟩⟩) [m]).run w with
  | .ok (.error e) w' => some (e, w')
  | _ => none

theorem Workspace.afterFailure?_eq_some {m : Module} {root : Tree} {e : CompileError}
    (h : w.afterFailure? m root = some (e, w')) :
    (Work.compile (.fragment "second" ⟨root, ⟨"second", ""⟩⟩) [m]).run w = .ok (.error e) w' := by
  unfold afterFailure? at h
  split at h
  · cases h
    assumption
  · cases h

/-- What is found of a unit, of one that fails behind it, and of the workspaces behind them. -/
theorem Workspace.exists_afterFailure (first second : Tree)
    (check : Module → Workspace → Workspace → Bool) (h : ((afterUnit? first).any fun p =>
      (p.2.afterFailure? p.1 second).any fun q => check p.1 p.2 q.2) = true) :
    ∃ m w e w', afterUnit? first = some (m, w) ∧ w.afterFailure? m second = some (e, w') ∧
      check m w w' = true := by
  obtain ⟨⟨m, w⟩, hsome, hrest⟩ := (Option.any_eq_true _ _).1 h
  obtain ⟨⟨e, w'⟩, hfailure, hcheck⟩ := (Option.any_eq_true _ _).1 hrest
  exact ⟨m, w, e, w', hsome, hfailure, hcheck⟩

/-- `(global hits i64 0) (fun hit () i64 (set hits (+ hits 1)) hits)` -/
def hitsUnit : Tree :=
  .list [.word "do",
    .list [.word "global", .word "hits", .word "i64", .number 0],
    .list [.word "fun", .word "hit", .list [], .word "i64",
      .list [.word "set", .word "hits", .list [.word "+", .word "hits", .number 1]], .word "hits"]]

/-- `(fun twice () i64 (* 2 hits)) (global a i64 (twice)) (global b i64 (/ 1 0))` -/
def readingUnit : Tree :=
  .list [.word "do",
    .list [.word "fun", .word "twice", .list [], .word "i64",
      .list [.word "*", .number 2, .word "hits"]],
    .list [.word "global", .word "a", .word "i64", .list [.word "twice"]],
    .list [.word "global", .word "b", .word "i64", .list [.word "/", .number 1, .number 0]]]

/-- The function of the unit that its initialisers call. -/
def isTwice (handle : FunctionHandle) : Bool := handle == ⟨⟨2⟩, 0⟩

theorem Reached.failed_compile_spares_reading :
    ∃ m w e w', Workspace.afterUnit? hitsUnit = some (m, w) ∧
    (Work.compile (.fragment "second" ⟨readingUnit, ⟨"second", ""⟩⟩) [m]).run w =
      .ok (.error e) w' ∧
      w'.library.modules.size = 3 ∧ w'.store.heap = w.store.heap ∧
        w'.global? m "hits" = w.global? m "hits" := by
  obtain ⟨m, w, e, w', hafter, hfailure, hcheck⟩ :=
    Workspace.exists_afterFailure hitsUnit readingUnit
      (fun m w w' => w'.library.modules.size == 3 &&
      ((w'.library.function? ⟨⟨2⟩, 0⟩).all fun f => f.within (fun _ => false) isTwice ⟨2⟩) &&
      match (SourceUnit.fragment "second" ⟨readingUnit, ⟨"second", ""⟩⟩).lower w.library [m] with
      | .ok (u, _) =>
        u.initialisers.all fun init => init.code.within (fun _ => false) isTwice u.module.id
      | .error _ => true) (by decide +kernel)
  rw [Bool.and_eq_true, Bool.and_eq_true] at hcheck
  obtain ⟨⟨hsize, htwice⟩, hlower⟩ := hcheck
  have hrun := Workspace.afterFailure?_eq_some hfailure
  have hconfines : w'.library.Confines (fun _ => false) isTwice := by
    intro handle f hcallable hf
    obtain rfl : handle = ⟨⟨2⟩, 0⟩ := beq_iff_eq.1 hcallable
    rw [hf] at htwice
    exact htwice
  have hwithin : (SourceUnit.fragment "second" ⟨readingUnit, ⟨"second", ""⟩⟩).Within w.library [m]
      (fun _ => false) isTwice := by
    intro u origin hu
    rw [hu] at hlower
    exact List.all_eq_true.1 hlower
  have hm : w.library.find? m.id = some m := by
    obtain ⟨hid, -, hlibrary⟩ := Work.module_of_compile (Workspace.afterUnit?_eq_some hafter)
    rw [hlibrary, hid]
    exact Source.find?_push_nextId _ _
  obtain ⟨hheap, hglobals⟩ :=
    (Reached.failed_compile_spares (.afterUnit hafter) hrun).2 _ isTwice hconfines hwithin
  exact ⟨m, w, e, w', hafter, hrun, beq_iff_eq.1 hsize, hheap rfl, hglobals m hm rfl "hits"⟩

/-- `(global a i64 (hit)) (global p (ptr u8) (malloc 16)) (global b i64 (/ 1 0))` -/
def hittingUnit : Tree :=
  .list [.word "do",
    .list [.word "global", .word "a", .word "i64", .list [.word "hit"]],
    .list [.word "global", .word "p", .list [.word "ptr", .word "u8"],
      .list [.word "malloc", .number 16]],
    .list [.word "global", .word "b", .word "i64", .list [.word "/", .number 1, .number 0]]]

/-- A place held the number nought before and one afterwards. -/
def countsOne : Option Value → Option Value → Bool
  | some (.int before), some (.int after) => before == 0 && after == 1
  | _, _ => false

/-- **A failed compile may show in what was there before**: the first initialiser counts a hit in a
module that was compiled earlier and the second takes a block, before the third fails. -/
theorem Reached.failed_compile_counts :
    ∃ m w e w', Workspace.afterUnit? hitsUnit = some (m, w) ∧ Reached w ∧
    (Work.compile (.fragment "second" ⟨hittingUnit, ⟨"second", ""⟩⟩) [m]).run w =
      .ok (.error e) w' ∧
      w.global? m "hits" = some (.int 0) ∧ w'.global? m "hits" = some (.int 1) ∧
        w.store.heap.live = [] ∧ w'.store.heap.live = [⟨16, 16⟩] := by
  obtain ⟨m, w, e, w', hafter, hfailure, hcheck⟩ :=
    Workspace.exists_afterFailure hitsUnit hittingUnit
      (fun m w w' => countsOne (w.global? m "hits") (w'.global? m "hits") &&
        w.store.heap.live == [] &&
      w'.store.heap.live == [⟨16, 16⟩]) (by decide +kernel)
  rw [Bool.and_eq_true, Bool.and_eq_true] at hcheck
  obtain ⟨⟨hcounts, hlive⟩, hlive'⟩ := hcheck
  unfold countsOne at hcounts
  split at hcounts
  · rename_i before after hbefore hafterwards
    rw [Bool.and_eq_true] at hcounts
    obtain ⟨hzero, hone⟩ := hcounts
    rw [beq_iff_eq.1 hzero] at hbefore
    rw [beq_iff_eq.1 hone] at hafterwards
    exact ⟨m, w, e, w', hafter, .afterUnit hafter,
      Workspace.afterFailure?_eq_some hfailure, hbefore, hafterwards, beq_iff_eq.1 hlive,
      beq_iff_eq.1 hlive'⟩
  · cases hcounts

end Kiln
