import Kiln.Container.Declare
import Kiln.Proofs.Workspace.Prepared
/-!
# Unloading

A module goes together with all that reach it by dependencies, and with the containers that are such
modules. Graph and registry are told the same (`Workspace.Unloads`), whatever the graph came about
by (`Workspace.Assembled.unload_removes`): modules may have been taken in more than once, without
those they depend on, or from another library. If one library compiled them all the graph has no
cycle, as each edge leads to a module that was compiled before.
-/

namespace Kiln

open Work

namespace Workspace

/-- Workspaces whose graph came about by loading files, by taking in modules of any kind and by
unloading. Whatever else is done leaves the graph alone. -/
inductive Assembled : Workspace → Prop
  | start {w : Workspace} : w.graph = .empty → Assembled w
  | load {w w' : Workspace} {name path : String} {deps : List Module} {r : Option Module} :
      Assembled w →
      loadNamed name path deps w = .ok r w' → Assembled w'
  | adopt {w w' : Workspace} {m : Module} : Assembled w → Work.adopt m w = .ok () w' → Assembled w'
  | unload {w w' : Workspace} {m : Module} {gone : List ModuleId} : Assembled w →
      Work.unload m w = .ok gone w' → Assembled w'
  | elsewhere {w w' : Workspace} : Assembled w → w'.graph = w.graph → Assembled w'

/-- What it comes to that a module is unloaded. -/
structure Unloads (w : Workspace) (m : Module) (gone : List ModuleId) (w' : Workspace) : Prop where
  /-- Those that go are the module, if it is in the graph, and all of the graph that reach it. -/
  gone_iff : ∀ id, id ∈ gone ↔ w.graph.contains id = true ∧ (id = m.id ∨ w.graph.Reaches id m.id)
  /-- Each is named once, -/
  once : gone.Nodup
  /-- and the module first. -/
  first : w.graph.contains m.id = true → gone.head? = some m.id
  /-- They are in the graph no more. -/
  absent : ∀ id ∈ gone, w'.graph.get? id = none
  /-- All others stay what they are, with what they depend on. -/
  kept :
    ∀ id, id ∉ gone → w'.graph.get? id = w.graph.get? id ∧
      w'.graph.dependencies id = w.graph.dependencies id
  /-- None of them depends on the module or on another that went. -/
  free : ∀ n ∈ w'.graph.modules, ∀ d ∈ n.deps, d ≠ m.id ∧ d ∉ gone
  /-- If all that was depended on was there, it still is. -/
  closed : w.graph.Closed → w'.graph.Closed
  /-- The wrappers that are left are those whose modules did not go, -/
  wrappers : ∀ e, e ∈ w'.registry.wrappers.entries ↔ e ∈ w.registry.wrappers.entries ∧ e.2 ∉ gone
  /-- and so are the arrays. -/
  arrays : ∀ e, e ∈ w'.registry.arrays.entries ↔ e ∈ w.registry.arrays.entries ∧ e.2 ∉ gone

variable {w w' : Workspace}

/-- **The graph has its modules in order**, and none twice. -/
theorem Assembled.sorted (h : w.Assembled) : w.graph.Sorted := by
  induction h with
  | start hempty => exact hempty ▸ ModuleGraph.sorted_empty
  | load _ hload ih =>
    rcases (loadNamed_steps hload).2 with ⟨-, halike⟩ | ⟨text, result, w₁, hcompile, hrest⟩
    · exact halike.graph ▸ ih
    have hsorted : w₁.graph.Sorted := by
      rw [elsewhere_of_compile hcompile]
      exact ih
    -- a unit that was refused leaves the graph alone, and one that was compiled adds its module
    rcases hrest with ⟨-, halike⟩ | ⟨m, -, -, -, hgraph⟩
    · exact halike.graph ▸ hsorted
    · exact hgraph ▸ hsorted.insert m
  | @adopt w w' m _ hadopt ih =>
    cases hadopt
    exact ih.insert m
  | @unload w w' m gone _ hunload ih =>
    cases hunload
    exact ih.removeWithDependents m.id
  | elsewhere _ hgraph ih => exact hgraph ▸ ih

theorem mem_filter_entries {r : NameMap ModuleId} {gone : List ModuleId} {e : String × ModuleId} :
    e ∈ (r.filter (!gone.contains ·)).entries ↔ e ∈ r.entries ∧ e.2 ∉ gone := by
  rw [NameMap.filter, List.mem_filter, Bool.not_eq_true', ← Bool.not_eq_true, List.contains_iff_mem]

/-- **Unloading a module takes out that module and what reaches it**, and leaves nothing that refers
to what went. The graph has no cycle if its modules were compiled one after the other. -/
theorem Assembled.unload_removes (h : w.Assembled) (m : Module) :
    (∃ gone w', Work.unload m w = .ok gone w' ∧ w.Unloads m gone w') ∧
      (w.Prepared →
        (∀ n, n ∈ w.library.modules ∨ n ∈ w.graph.modules → ∀ d ∈ n.deps, d.index < n.id.index) ∧
        ∀ id, ¬w.graph.Reaches id id) := by
  refine ⟨⟨_, _, rfl, ?_⟩, fun hw => ⟨?_, fun id hcycle => ?_⟩⟩
  · exact {
      gone_iff := fun id => ModuleGraph.mem_removed_iff
      once := ModuleGraph.nodup_removed h.sorted m.id
      first := ModuleGraph.head?_removed
      absent := fun id hid => ModuleGraph.get?_of_mem_removed hid
      kept := fun id hid => by
        -- what a module depends on is read off the module that is found
        have hget := ModuleGraph.get?_of_not_mem_removed hid
        refine ⟨hget, ?_⟩
        rw [ModuleGraph.dependencies, ModuleGraph.dependencies]
        exact congrArg (fun found => (found.map (·.deps)).getD []) hget
      free := fun n hn d hd => ModuleGraph.not_dangling hn hd
      closed := fun hclosed => hclosed.removeWithDependents m.id
      wrappers := fun e => mem_filter_entries
      arrays := fun e => mem_filter_entries }
  · rintro n (hn | hn)
    · exact hw.descends.1 n hn
    · exact hw.descends.2 n hn
  · -- on the way round a cycle the numbers would have become smaller
    exact Nat.lt_irrefl _ (ModuleGraph.lt_of_reaches hw.descends.2 hcycle)

/-- The module of a unit that defines nothing. -/
def bare (w : Workspace) (name : String) (deps : List Module) : Module :=
  ⟨w.library.nextId, name, deps.map (·.id), [], [], []⟩

/-- The workspace in which such a unit was compiled and its module taken in. -/
def withBare (w : Workspace) (name : String) (deps : List Module) : Workspace :=
  { installed w (w.bare name deps) with graph := w.graph.insert (w.bare name deps) }

theorem compile_bare (w : Workspace) (name : String) (deps : List Module) :
    (compile (.fragment name Container.nothing) deps).run w =
      .ok (.ok (w.bare name deps)) (installed w (w.bare name deps)) := by
  rfl

theorem Prepared.withBare (h : w.Prepared) (name : String) {deps : List Module}
    (hdeps : ∀ d ∈ deps, w.library.find? d.id = some d) : (w.withBare name deps).Prepared :=
  .adopt (.compile h hdeps (compile_bare w name deps)) Array.getElem?_push_size

theorem Assembled.withBare (h : w.Assembled) (name : String) (deps : List Module) :
    (w.withBare name deps).Assembled :=
  .adopt (w := installed w (w.bare name deps)) (.elsewhere h rfl) rfl

/-- Two modules are compiled against a first, and one against both; a fifth is left alone. -/
theorem Assembled.unload_removes_diamond :
    let a : Module := ⟨⟨1⟩, "a", [], [], [], []⟩
    let b : Module := ⟨⟨2⟩, "b", [⟨1⟩], [], [], []⟩
    let c : Module := ⟨⟨3⟩, "c", [⟨1⟩], [], [], []⟩
    let one : Workspace := (Workspace.initial 64 (.empty "/project")).withBare "a" []
    let w : Workspace :=
      (((one.withBare "b" [a]).withBare "c" [a]).withBare "d" [b, c]).withBare "e" []
    w.Assembled ∧ w.Prepared ∧ (∀ id, ¬w.graph.Reaches id id) ∧
      ∃ w', Work.unload a w = .ok [⟨1⟩, ⟨2⟩, ⟨3⟩, ⟨4⟩] w' ∧
        w.Unloads a [⟨1⟩, ⟨2⟩, ⟨3⟩, ⟨4⟩] w' := by
  intro a b c one w
  have hone : one.Assembled := (Assembled.start rfl).withBare _ _
  have hassembled : w.Assembled := (((hone.withBare _ _).withBare _ _).withBare _ _).withBare _ _
  have hone' : one.Prepared := (Prepared.initial 64 _).withBare _ (by simp)
  have hthree : ((one.withBare "b" [a]).withBare "c" [a]).Prepared :=
    (hone'.withBare _ (List.forall_mem_singleton.2 rfl)).withBare _
      (List.forall_mem_singleton.2 rfl)
  have hprepared : w.Prepared :=
    (hthree.withBare _ (List.forall_mem_cons.2 ⟨rfl, List.forall_mem_singleton.2 rfl⟩)).withBare _
      (by simp)
  obtain ⟨⟨gone, w', hunload, hspec⟩, hcycles⟩ := Assembled.unload_removes hassembled a
  have hgone : gone = [⟨1⟩, ⟨2⟩, ⟨3⟩, ⟨4⟩] := by
    cases hunload
    decide +kernel
  subst hgone
  exact ⟨hassembled, hprepared, (hcycles hprepared).2, w', hunload, hspec⟩

end Workspace

end Kiln
