import Kiln.Proofs.Lowering.Units
import Kiln.Proofs.Workspace.Isolation
import Kiln.Proofs.Workspace.Mirroring
/-!
# One dependency more

Names are looked up in the dependencies of a unit in their order, and in the base library last of
all. So a dependency that comes behind the others takes no name from them, and if it offers no
function under a name of the base library it takes none from there either (`Module.cover_append`). A
unit that compiles against some dependencies therefore compiles to the same module, but for what it
depends on, when one more is added behind them (`Work.compile_dependency_last`).
-/

namespace Kiln

/-- No function of the module goes by the name of one of the base library. -/
def Module.LeavesBase (m : Module) : Prop :=
  ∀ f ∈ m.functions, ∀ g ∈ Module.base.functions, f.name ≠ g.name

instance (m : Module) : Decidable m.LeavesBase :=
  inferInstanceAs (Decidable (∀ f ∈ m.functions, ∀ g ∈ Module.base.functions, f.name ≠ g.name))

/-- The module, compiled against one module more. -/
def Module.withDependency (md m : Module) : Module := { md with deps := md.deps ++ [m.id] }

/-- What a module says of a name, behind what others say. -/
theorem findSome?_append_of_some {α β : Type} {f : α → Option β} {xs ys : List α} {b : β}
    (h : xs.findSome? f = some b) : (xs ++ ys).findSome? f = some b := by
  rw [List.findSome?_append, h]
  rfl

/-- **A dependency that comes last changes the meaning of no name**, if it leaves the names of the
base library alone. -/
theorem Module.cover_append (deps : List Module) {m : Module} (hm : m.LeavesBase) :
    Module.Cover deps (deps ++ [m]) := by
  refine ⟨fun names name t h => ?_,
    fun names name g h => findSome?_append_of_some h, fun names name f h => ?_⟩
  · unfold Names.type? at h ⊢
    split at h
    · exact h
    · dsimp only at h ⊢
      split at h
      · rename_i hown
        rw [if_pos hown]
        exact h
      · rename_i hown
        rw [if_neg hown]
        exact findSome?_append_of_some h
  · unfold Names.function? at h ⊢
    dsimp only at h ⊢
    split at h
    · exact h
    · rw [List.findSome?_append, Option.or_eq_some_iff] at h
      rw [List.append_assoc, List.findSome?_append, Option.or_eq_some_iff]
      refine h.imp_right fun ⟨hdeps, hbase⟩ => ⟨hdeps, ?_⟩
      -- the name is one of the base library, so that the last dependency has no function of it
      have hnone : m.functionIndex? name = none := by
        rw [List.findSome?_singleton] at hbase
        obtain ⟨i, hi, -⟩ := Option.bind_eq_some_iff.1 hbase
        obtain ⟨hlt, hname, -⟩ := List.findIdx?_eq_some_iff_getElem.1 hi
        refine List.findIdx?_eq_none_iff.2 fun f hf => decide_eq_false fun heq => ?_
        exact hm f hf _ (List.getElem_mem hlt) (heq.trans (of_decide_eq_true hname).symm)
      rw [List.findSome?_append, List.findSome?_singleton, hnone]
      exact hbase

section Push

variable {lib : Library} {md m : Module}

theorem function?_withDependency (handle : FunctionHandle) :
    (lib.push (md.withDependency m)).function? handle = (lib.push md).function? handle := by
  rw [Library.function?, Library.function?]
  by_cases hhome : handle.home = lib.nextId
  · rw [hhome, Source.find?_push_nextId, Source.find?_push_nextId]
    rfl
  · rw [Source.find?_push_of_ne hhome, Source.find?_push_of_ne hhome]

/-- A library in which a module was compiled against one module more mirrors the one in which it was
not. -/
theorem mirrors_withDependency (lib : Library) (md m : Module) :
    (lib.push md).Mirrors Eq (lib.push (md.withDependency m)) := by
  refine ⟨Source.layouts_push_congr (fun _ => rfl) rfl, fun h => h ▸ rfl, ?_⟩
  rintro handle _ rfl
  rw [function?_withDependency]
  cases (lib.push md).function? handle with
  | none => exact .none
  | some f => exact .some (Function.like_self fun _ _ _ _ _ _ => rfl)

end Push

namespace Work

/-- A unit that is lowered against some modules is lowered to the same against one more. -/
theorem lower_withDependency {lib : Library} {unit : SourceUnit} {deps : List Module} {m : Module}
    {u : LoweredUnit} {origin : Origin} (hm : m.LeavesBase)
    (h : unit.lower lib deps = .ok (u, origin)) :
    unit.lower lib (deps ++ [m]) = .ok (⟨u.module.withDependency m, u.initialisers⟩, origin) := by
  obtain ⟨f, hread, h⟩ := ok_of_bind h
  obtain ⟨u, hunit, h⟩ := ok_of_bind h
  cases h
  have hunit := ok_of_mapError hunit
  have hself : f.root.Matches Eq f.root := Tree.matches_self fun _ _ => rfl
  obtain ⟨⟨m', inits⟩, hunit', hmodule, hinits⟩ :=
    (lowerUnit_upheld (Module.cover_append deps hm) hself unit.name unit.name).ok hunit
  have hm' : m' = u.module.withDependency m := by
    obtain ⟨-, hdeps, hname⟩ := module_of_lowerUnit hunit
    refine hmodule.trans ?_
    rw [Module.withDependency, hdeps, ← hname, List.map_append]
    rfl
  have hinits' : inits = u.initialisers := by
    have hsame : List.Forall₂ Eq u.initialisers inits := hinits.imp fun _ _ hi => hi.eq.symm
    rw [List.forall₂_eq_eq_eq] at hsame
    exact hsame.symm
  rw [SourceUnit.lower, hread]
  show (lowerUnit _ _ _ f.root).mapError _ >>= _ = _
  rw [hunit', hm', hinits']
  rfl

/-- **A dependency that comes last changes no unit that compiles.** With a module behind its
dependencies that leaves the names of the base library alone, each of its names means what it meant,
and it compiles to the same functions, structs and globals and to the same code, with the same
initialisers; these leave everything but the library as before, and every call does the same. -/
theorem compile_dependency_last {w w' : Workspace} {unit : SourceUnit} {deps : List Module}
    {md m : Module} (hm : m.LeavesBase) (h : (compile unit deps).run w = .ok (.ok md) w') :
    Module.Cover deps (deps ++ [m]) ∧
      (∃ u origin, u.module = md ∧ unit.lower w.library deps = .ok (u, origin) ∧
        unit.lower w.library (deps ++ [m]) = .ok (⟨md.withDependency m, u.initialisers⟩, origin)) ∧
      (compile unit (deps ++ [m])).run w =
        .ok (.ok (md.withDependency m))
          { w' with library := w.library.push (md.withDependency m) } ∧
      w'.library = w.library.push md ∧
      (w.library.push (md.withDependency m)).layouts = w'.library.layouts ∧
      ∀ handle args, Kiln.call (w.library.push (md.withDependency m)) handle args =
        Kiln.call w'.library handle args := by
  obtain ⟨u, origin, hlower, rfl, hlibrary⟩ := compile_ok h
  have hlower' := lower_withDependency hm hlower
  have hmirrors := mirrors_withDependency w.library u.module m
  have halike := compile_alike (E := Eq) hlower hlower' rfl rfl (List.forall₂_same.2 fun init _ =>
    ⟨evaluate_mirrored hmirrors _ (Code.CallsSelf.like fun _ _ _ => rfl), fun _ _ => rfl⟩)
  rw [h] at halike
  refine ⟨Module.cover_append deps hm, ⟨u, origin, rfl, hlower, hlower'⟩, ?_, hlibrary, ?_,
    fun handle args => ?_⟩
  · generalize (compile unit (deps ++ [m])).run w = ended at halike ⊢
    generalize hr : EStateM.Result.ok (Except.ok u.module) w' = r at halike
    cases halike with
    | value w₁ hvalues =>
      cases hr
      rw [hvalues.2]
    | error _ _ => cases hr
    | halt _ => cases hr
  · rw [hlibrary]
    exact hmirrors.layouts
  · rw [hlibrary]
    exact (call_mirrored hmirrors rfl args).symm

/-- A module that offers a function under the name `hit`. -/
def lateModule : Module :=
  ⟨⟨9⟩, "late", [], [⟨"hit", [("times", .i64)], .unit, .native .printInt⟩], [], []⟩

theorem compile_dependency_last_hit : ∃ m w m' w', Workspace.afterUnit? hitsUnit = some (m, w) ∧
    w.afterSecond? m strikeUnit = some (m', w') ∧ lateModule.LeavesBase ∧
      (compile (.fragment "second" ⟨strikeUnit, ⟨"second", ""⟩⟩) [m, lateModule]).run w =
        .ok (.ok (m'.withDependency lateModule))
          { w' with library := w.library.push (m'.withDependency lateModule) } := by
  obtain ⟨m, w, hafter, hcheck⟩ := Workspace.exists_afterUnit hitsUnit
    (fun m w => (w.afterSecond? m strikeUnit).isSome) (by decide +kernel)
  obtain ⟨⟨m', w'⟩, hsecond⟩ := Option.isSome_iff_exists.1 hcheck
  have hlate : lateModule.LeavesBase := by decide
  have hrun :
      (compile (.fragment "second" ⟨strikeUnit, ⟨"second", ""⟩⟩) [m]).run w = .ok (.ok m') w' := by
    unfold Workspace.afterSecond? at hsecond
    split at hsecond
    · cases hsecond
      assumption
    · cases hsecond
  exact ⟨m, w, m', w', hafter, hsecond, hlate, (compile_dependency_last hlate hrun).2.2.1⟩

end Work

end Kiln
