import Kiln.Proofs.Reload.Deeds
import Kiln.Proofs.Workspace.Prepared
/-!
# What loading and unloading do

Of the workspace the loop only needs to know how long the library is and which modules the graph
holds. A file that is loaded becomes the next module of the library and the last of the graph
(`Work.load_outcome`); a module that no other was compiled against is taken out of the graph alone
(`ModuleGraph.removeWithDependents_modules`); nothing else that the loop does changes either.
-/

namespace Kiln

/-! ## The graph -/

namespace ModuleGraph

/-- No module is reached from one that no other was compiled against. -/
theorem allDependents_eq_nil {g : ModuleGraph} {id : ModuleId}
    (h : ∀ n ∈ g.modules, n.id ≠ id → id ∉ n.deps) : g.allDependents id = [] := by
  have hnone : importers id (g.modules.filter (·.id ≠ id)) = [] := by
    refine List.filter_eq_nil_iff.2 fun n hn hmem => ?_
    obtain ⟨hn, hne⟩ := List.mem_filter.1 hn
    exact h n hn (of_decide_eq_true hne) (List.contains_iff_mem.1 hmem)
  rw [allDependents, reaching]
  simp only [hnone, List.map_nil, List.nil_append, List.append_nil]
  rw [reaching]

/-- **A module that no other was compiled against is taken out alone.** -/
theorem removeWithDependents_modules {g : ModuleGraph} {id : ModuleId}
    (h : ∀ n ∈ g.modules, n.id ≠ id → id ∉ n.deps) :
    (g.removeWithDependents id).2.modules = g.modules.filter (·.id ≠ id) := by
  rw [removeWithDependents, allDependents_eq_nil h]
  dsimp only
  refine List.filter_congr fun n _ => ?_
  by_cases hid : n.id = id
  · simp [hid]
  · simp [hid]

end ModuleGraph

/-! ## Work on the workspace -/

namespace Work

variable {w w' : Workspace}

/-- A file that is loaded becomes the next module of the library and enters the graph. One that is
not may have taken a number all the same. -/
theorem load_outcome {path : String} {deps : List Module} {r : Option Module}
    (h : load path deps w = .ok r w') :
    (r = none ∧ w'.graph = w.graph ∧ w.library.modules.size ≤ w'.library.modules.size) ∨
      ∃ m, r = some m ∧ m.id = w.library.nextId ∧ m.deps = deps.map (·.id) ∧
        w'.library = w.library.push m ∧ w'.graph = w.graph.insert m := by
  rcases r with _ | m
  · refine .inl ⟨rfl, ?_⟩
    rcases (loadNamed_steps h).2 with ⟨-, halike⟩
      | ⟨text, result, w₁, hcompile, ⟨-, halike⟩ | ⟨m, -, hcases, -⟩⟩
    · exact ⟨halike.graph, Nat.le_of_eq (by rw [halike.library])⟩
    · refine ⟨halike.graph.trans (by rw [elsewhere_of_compile hcompile]), ?_⟩
      rw [halike.library]
      -- a unit that fails with its globals has taken a number
      rcases compile_outcome hcompile with ⟨_, -, rfl⟩ | ⟨u, _, _, -, hlibrary, -, -⟩
      · exact Nat.le_refl _
      · rw [hlibrary, Library.push, Array.size_push]
        exact Nat.le_succ _
    · cases hcases
  · obtain ⟨hid, hdeps, -, hlibrary, hgraph, -⟩ := module_of_loadNamed h
    exact .inr ⟨m, rfl, hid, hdeps, hlibrary, hgraph⟩

end Work

/-! ## Steps of the loop -/

variable {w w' : Workspace} {r r' : Reloader}

theorem EntryPoint.bind_outcome {e e' : EntryPoint} {m : Module} (h : e.bind m w = .ok e' w') :
    e' = ⟨e.name, m.entryPoint? e.name⟩ ∧ w.Alike w' := by
  rw [EntryPoint.bind] at h
  rw [Module.entryPoint?]
  generalize m.functions.find? (·.name = e.name) = found at h ⊢
  rcases found with _ | f
  · cases h
    rw [Option.bind_none]
    exact ⟨rfl, rfl, rfl⟩
  · rw [Option.bind_some]
    by_cases hparams : f.params.isEmpty = true
    · dsimp only at h
      rw [if_pos hparams] at h
      cases h
      rw [if_pos hparams]
      exact ⟨rfl, rfl, rfl⟩
    · dsimp only at h
      rw [if_neg hparams] at h
      cases h
      rw [if_neg hparams]
      exact ⟨rfl, rfl, rfl⟩

namespace Reload

/-- Steps of the loop come apart. -/
theorem ok_of_step {α β : Type} {x : Reload α} {k : α → Reload β} {b : β}
    (h : (x >>= k) r w = .ok (b, r') w') :
    ∃ a r₁ w₁, x r w = .ok (a, r₁) w₁ ∧ k a r₁ w₁ = .ok (b, r') w' := by
  obtain ⟨⟨a, r₁⟩, w₁, hx, hk⟩ := ok_of_run_bind (x := x r) (k := fun p => k p.1 p.2) h
  exact ⟨a, r₁, w₁, hx, hk⟩

/-- A step that is work on the workspace leaves the loop as it is. -/
theorem ok_of_work {α : Type} {x : Work α} {a : α} (h : (liftM x : Reload α) r w = .ok (a, r') w') :
    r' = r ∧ x w = .ok a w' := by
  obtain ⟨a, w₁, hx, hpair⟩ := ok_of_run_bind (x := x) (k := fun a => pure (a, r)) h
  cases hpair
  exact ⟨rfl, hx⟩

theorem callEntry_outcome {e : EntryPoint} {result : Except Fault Unit}
    (h : callEntry e r w = .ok (result, r') w') : r' = r ∧ w.Alike w' := by
  obtain ⟨name, handle⟩ := e
  obtain ⟨rfl, hcall⟩ := ok_of_work h
  refine ⟨rfl, ?_⟩
  rcases handle with _ | handle
  · cases hcall
    exact ⟨rfl, rfl⟩
  · change (Work.call handle [] >>= fun _ => pure ()).run w = .ok result w' at hcall
    rcases Work.run_of_bind hcall with ⟨f, hrun, -⟩ | ⟨v, w₂, hrun, hrest⟩
    · obtain ⟨s, rfl, -⟩ := Work.call_outcome hrun
      exact ⟨rfl, rfl⟩
    · cases hrest
      obtain ⟨s, rfl, -⟩ := Work.call_outcome hrun
      exact ⟨rfl, rfl⟩

theorem install_outcome {m : Module} (h : install m r w = .ok ((), r') w') : w.Alike w' ∧
    r' = { r with
      update := ⟨r.update.name, m.entryPoint? r.update.name⟩
      terminate := ⟨r.terminate.name, m.entryPoint? r.terminate.name⟩
      current := some m
      state := .loaded } := by
  obtain ⟨_, _, _, hget, h⟩ := ok_of_step h
  cases hget
  obtain ⟨update, _, w₁, hlift, h⟩ := ok_of_step h
  obtain ⟨rfl, hupdate⟩ := ok_of_work hlift
  obtain ⟨terminate, _, w₂, hlift, h⟩ := ok_of_step h
  obtain ⟨rfl, hterminate⟩ := ok_of_work hlift
  cases h
  obtain ⟨rfl, halike⟩ := EntryPoint.bind_outcome hupdate
  obtain ⟨rfl, halike'⟩ := EntryPoint.bind_outcome hterminate
  exact ⟨⟨halike'.library.trans halike.library, halike'.graph.trans halike.graph⟩, rfl⟩

end Reload

end Kiln
