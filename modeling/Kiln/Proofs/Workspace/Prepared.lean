import Kiln.Proofs.Project.Dependents
import Kiln.Proofs.Workspace.Outcomes
import Kiln.Workspace.Load
/-!
# Prepared workspaces

A workspace is *prepared* when it comes about by compiling units against modules that are there, and
by taking modules that are there in and out of the graph; loading a file is compiling it and taking
its module in (`Workspace.Prepared.load`). Every number in the graph of a prepared workspace was
given out by its library (`Workspace.Prepared.knows`), so the next module that is compiled is new to
the graph. A module is compiled after those it depends on, so all edges lead to smaller numbers
(`Workspace.Prepared.descends`).
-/

namespace Kiln

open Work

/-- The numbers of a module and of those it was compiled against were given out. -/
def Library.Knows (lib : Library) (m : Module) : Prop :=
  m.id.index < lib.modules.size ∧ ∀ d ∈ m.deps, d.index < lib.modules.size

theorem Library.Knows.push {lib : Library} {m : Module} (h : lib.Knows m) (n : Module) :
    (lib.push n).Knows m := by
  rw [Knows, Library.push, Array.size_push]
  exact ⟨Nat.lt_succ_of_lt h.1, fun d hd => Nat.lt_succ_of_lt (h.2 d hd)⟩

/-- The library and the graph are the same. -/
structure Workspace.Alike (w w' : Workspace) : Prop where
  library : w'.library = w.library
  graph : w'.graph = w.graph

/-- The steps of loading a file: unless it cannot be read it is compiled, and a module that comes of
it enters the graph. -/
theorem Work.loadNamed_steps {w w' : Workspace} {name path : String} {deps : List Module}
    {r : Option Module} (h : loadNamed name path deps w = .ok r w') : w'.registry = w.registry ∧
      ((r = none ∧ w.Alike w') ∨
      ∃ text result w₁, (compile (.text name path text) deps).run w = .ok result w₁ ∧
        ((r = none ∧ w₁.Alike w') ∨
        ∃ m, result = .ok m ∧ r = some m ∧ w'.library = w₁.library ∧
          w'.graph = w₁.graph.insert m)) := by
  obtain ⟨text, w₁, hread, h⟩ := ok_of_run_bind h
  obtain rfl := readFile_outcome hread
  rcases text with e | text
  · cases h
    exact ⟨rfl, .inl ⟨rfl, rfl, rfl⟩⟩
  · obtain ⟨result, w₂, hcompile, h⟩ := ok_of_run_bind h
    have hregistry : w₂.registry = w₁.registry := by rw [elsewhere_of_compile hcompile]
    rcases result with e | m
    · cases h
      exact ⟨hregistry, .inr ⟨text, _, w₂, hcompile, .inl ⟨rfl, rfl, rfl⟩⟩⟩
    · cases h
      exact ⟨hregistry, .inr ⟨text, _, w₂, hcompile, .inr ⟨m, rfl, rfl, rfl, rfl⟩⟩⟩

/-- **A file that is loaded becomes the next module**, called as asked, and enters the graph. -/
theorem Work.module_of_loadNamed {w w' : Workspace} {name path : String}
    {deps : List Module} {m : Module} (h : loadNamed name path deps w = .ok (some m) w') :
      m.id = w.library.nextId ∧ m.deps = deps.map (·.id) ∧
      m.name = name ∧ w'.library = w.library.push m ∧ w'.graph = w.graph.insert m ∧
        w'.registry = w.registry := by
  obtain ⟨hregistry,
    ⟨hcases, -⟩ | ⟨text, result, w₁, hcompile, ⟨hcases, -⟩ | ⟨n, rfl, hr, hlibrary, hgraph⟩⟩⟩ :=
    loadNamed_steps h
  · cases hcases
  · cases hcases
  · cases hr
    obtain ⟨hid, hdeps, hpush⟩ := module_of_compile hcompile
    have hsame : w₁.graph = w.graph := by rw [elsewhere_of_compile hcompile]
    exact ⟨hid, hdeps, name_of_compile hcompile, hlibrary.trans hpush, hsame ▸ hgraph, hregistry⟩

/-- What a compile adds to the library, if anything: the next module, which depends on what was
there. -/
theorem Work.compile_adds {w w' : Workspace} {unit : SourceUnit} {deps : List Module}
    {r : Except CompileError Module} (hdeps : ∀ d ∈ deps, w.library.find? d.id = some d)
    (h : (compile unit deps).run w = .ok r w') : w'.graph = w.graph ∧ (w'.library = w.library ∨
      ∃ m, w'.library = w.library.push m ∧ m.id = w.library.nextId ∧
        ∀ d ∈ m.deps, d.index < w.library.modules.size) := by
  refine ⟨by rw [elsewhere_of_compile h], ?_⟩
  rcases compile_outcome h with ⟨_, -, rfl⟩ | ⟨lowered, origin, r', hlower, hlibrary, -, -⟩
  · exact .inl rfl
  · obtain ⟨f, -, hlower⟩ := lower_outcome hlower
    obtain ⟨hid, hids, -⟩ := module_of_lowerUnit hlower
    refine .inr ⟨lowered.module, hlibrary, hid, fun d hd => ?_⟩
    rw [hids] at hd
    obtain ⟨n, hn, rfl⟩ := List.mem_map.1 hd
    exact (Array.getElem?_eq_some_iff.1 (hdeps n hn)).1

namespace Workspace

/-- Workspaces that come about by compiling and by changing the graph. -/
inductive Prepared : Workspace → Prop
  | initial (limit : Nat) (files : Files) : Prepared (.initial limit files)
  | compile {w w' : Workspace} {unit : SourceUnit} {deps : List Module}
      {r : Except CompileError Module} :
      Prepared w → (∀ d ∈ deps, w.library.find? d.id = some d) →
      (Work.compile unit deps).run w = .ok r w' → Prepared w'
  | adopt {w : Workspace} {m : Module} : Prepared w → w.library.find? m.id = some m →
      Prepared { w with graph := w.graph.insert m }
  | unload {w w' : Workspace} {m : Module} {gone : List ModuleId} : Prepared w →
      Work.unload m w = .ok gone w' → Prepared w'
  | elsewhere {w w' : Workspace} : Prepared w → w.Alike w' → Prepared w'

variable {w w' : Workspace}

theorem Prepared.load (hw : Prepared w) {name path : String} {deps : List Module}
    {r : Option Module} (hdeps : ∀ d ∈ deps, w.library.find? d.id = some d)
    (h : Work.loadNamed name path deps w = .ok r w') :
    Prepared w' := by
  rcases (loadNamed_steps h).2 with ⟨-, halike⟩ | ⟨text, result, w₁, hcompile, hrest⟩
  · exact .elsewhere hw halike
  have hcompiled : Prepared w₁ := .compile hw hdeps hcompile
  rcases hrest with ⟨-, halike⟩ | ⟨m, rfl, -, hlibrary, hgraph⟩
  · exact .elsewhere hcompiled halike
  · obtain ⟨hid, -, hpush⟩ := module_of_compile hcompile
    have hfound : w₁.library.find? m.id = some m := by
      rw [hpush, hid]
      exact Array.getElem?_push_size
    exact .elsewhere (.adopt hcompiled hfound) ⟨hlibrary, hgraph⟩

/-- **The library of a prepared workspace knows** its modules and those of the graph. -/
theorem Prepared.knows (h : Prepared w) :
    (∀ m ∈ w.library.modules, w.library.Knows m) ∧ ∀ m ∈ w.graph.modules, w.library.Knows m := by
  induction h with
  | initial limit files =>
    refine ⟨fun m hm => ?_, fun m hm => (by cases hm)⟩
    rw [Workspace.initial, Library.initial, List.mem_toArray, List.mem_singleton] at hm
    subst hm
    exact ⟨Nat.zero_lt_one, fun d hd => by cases hd⟩
  | compile _ hdeps hrun ih =>
    obtain ⟨hgraph, hadds⟩ := compile_adds hdeps hrun
    rw [hgraph]
    rcases hadds with hlibrary | ⟨m, hlibrary, hid, hbelow⟩
    · rw [hlibrary]
      exact ih
    · rw [hlibrary]
      refine ⟨fun n hn => ?_, fun n hn => (ih.2 n hn).push m⟩
      rcases Array.mem_push.1 hn with hn | rfl
      · exact (ih.1 n hn).push _
      · rw [Library.Knows, Library.push, Array.size_push, hid]
        exact ⟨Nat.lt_succ_self _, fun d hd => Nat.lt_succ_of_lt (hbelow d hd)⟩
  | @adopt w m _ hm ih =>
    refine ⟨ih.1, fun n hn => ?_⟩
    rcases ModuleGraph.mem_of_mem_insert hn with rfl | hn
    · exact ih.1 n (Array.mem_of_getElem? hm)
    · exact ih.2 n hn
  | @unload w w' m _ _ hrun ih =>
    cases hrun
    exact ⟨ih.1, fun n hn => ih.2 n (List.mem_filter.1 hn).1⟩
  | elsewhere _ halike ih =>
    rw [halike.library, halike.graph]
    exact ih

/-- **A module has a larger number than those it was compiled against**, in the library and in the
graph. -/
theorem Prepared.descends (h : Prepared w) :
    (∀ m ∈ w.library.modules, ∀ d ∈ m.deps, d.index < m.id.index) ∧
      ∀ m ∈ w.graph.modules, ∀ d ∈ m.deps, d.index < m.id.index := by
  induction h with
  | initial limit files =>
    refine ⟨fun m hm => ?_, fun m hm => (by cases hm)⟩
    rw [Workspace.initial, Library.initial, List.mem_toArray, List.mem_singleton] at hm
    subst hm
    exact fun d hd => by cases hd
  | compile _ hdeps hrun ih =>
    obtain ⟨hgraph, hadds⟩ := compile_adds hdeps hrun
    rw [hgraph]
    refine ⟨?_, ih.2⟩
    rcases hadds with hlibrary | ⟨m, hlibrary, hid, hbelow⟩
    · rw [hlibrary]
      exact ih.1
    · intro n hn
      rw [hlibrary] at hn
      rcases Array.mem_push.1 hn with hn | rfl
      · exact ih.1 n hn
      · rw [hid]
        exact hbelow
  | @adopt w m _ hm ih =>
    refine ⟨ih.1, fun n hn => ?_⟩
    rcases ModuleGraph.mem_of_mem_insert hn with rfl | hn
    · exact ih.1 n (Array.mem_of_getElem? hm)
    · exact ih.2 n hn
  | unload _ hrun ih =>
    cases hrun
    exact ⟨ih.1, fun n hn => ih.2 n (List.mem_filter.1 hn).1⟩
  | elsewhere _ halike ih =>
    rw [halike.library, halike.graph]
    exact ih

end Workspace

end Kiln
