import Kiln.Proofs.Container.Declared
import Kiln.Proofs.Container.Items
import Kiln.Proofs.Workspace.Unloading
/-!
# Registry and graph

Work on modules and containers goes step by step (`Workspace.Step`): units are compiled, files
loaded, modules taken in and out of the graph and containers declared. The two tables of the
registry are filled by declarations alone and emptied by what the graph gives up. If what is
declared is taken in at once (`Workspace.Stocked`) they are in step with the graph and with each
other, in whatever order all this is done (`Workspace.Stocked.keeps_registry`): their modules are
loaded, and the one dependency of an array is the wrapper of the same name. So that table alone
tells which names are taken.
-/

namespace Kiln

open Work

namespace Registry

variable {r : Registry} {gone : List ModuleId} {name : String} {id : ModuleId}

/-- Either table has one entry of a name at most. -/
def Sorted (r : Registry) : Prop := r.wrappers.Sorted ∧ r.arrays.Sorted

theorem Sorted.forget (h : r.Sorted) (gone : List ModuleId) : (r.forget gone).Sorted :=
  ⟨h.1.filter _, h.2.filter _⟩

theorem Sorted.find?_wrappers_forget (h : r.Sorted) :
    (r.forget gone).wrappers.find? name = some id ↔ r.wrappers.find? name = some id ∧
    id ∉ gone := by
  rw [Registry.forget, h.1.find?_filter, Bool.not_eq_true', ← Bool.not_eq_true,
    List.contains_iff_mem]

theorem Sorted.find?_arrays_forget (h : r.Sorted) :
    (r.forget gone).arrays.find? name = some id ↔ r.arrays.find? name = some id ∧ id ∉ gone := by
  rw [Registry.forget, h.2.find?_filter, Bool.not_eq_true', ← Bool.not_eq_true,
    List.contains_iff_mem]

end Registry

/-! ## Graphs of one library -/

namespace Library

variable {lib later : Library} {g : ModuleGraph} {m n : Module} {id : ModuleId}

/-- The modules of the graph are modules of the library. -/
def Holds (lib : Library) (g : ModuleGraph) : Prop := ∀ n ∈ g.modules, lib.find? n.id = some n

theorem Holds.grow (h : lib.Holds g) (hgrows : lib.Grows later) : later.Holds g :=
  fun n hn => hgrows _ _ (h n hn)

theorem Holds.insert (h : lib.Holds g) (hm : lib.find? m.id = some m) : lib.Holds (g.insert m) := by
  intro n hn
  rcases ModuleGraph.mem_of_mem_insert hn with rfl | hn
  · exact hm
  · exact h n hn

theorem Holds.remove (h : lib.Holds g) (id : ModuleId) : lib.Holds (g.removeWithDependents id).2 :=
  fun n hn => h n (ModuleGraph.mem_removeWithDependents.1 hn).1

/-- A number has one module, so none is replaced when one is taken in. -/
theorem Holds.get?_insert (h : lib.Holds g) (hm : lib.find? m.id = some m)
    (hn : g.get? id = some n) :
    (g.insert m).get? id = some n := by
  rw [ModuleGraph.get?_insert]
  split
  · rename_i heq
    have hfound := h n (List.mem_of_find?_eq_some hn)
    rwa [ModuleGraph.id_of_get? hn, ← heq, hm] at hfound
  · exact hn

end Library

/-! ## The tables and the graph -/

namespace Registry

variable {r : Registry} {g g' : ModuleGraph} {name : String} {id : ModuleId}

/-- The tables are in step with the graph, and the one with the other. -/
structure Coupled (r : Registry) (g : ModuleGraph) : Prop where
  /-- The modules of wrappers are loaded. -/
  wrapper : ∀ name id, r.wrappers.find? name = some id → g.contains id = true
  /-- So are those of arrays, which depend on the wrapper of their name. -/
  array : ∀ name id, r.arrays.find? name = some id →
    ∃ m wrapper, g.get? id = some m ∧ m.deps = [wrapper] ∧ r.wrappers.find? name = some wrapper

theorem coupled_empty (g : ModuleGraph) : Registry.empty.Coupled g := ⟨nofun, nofun⟩

theorem Coupled.mono (h : r.Coupled g) (hgraph : ∀ id m, g.get? id = some m → g'.get? id = some m) :
    r.Coupled g' where
  wrapper := fun name id hid => by
    obtain ⟨m, hm⟩ := Option.isSome_iff_exists.1 (h.wrapper name id hid)
    exact Option.isSome_iff_exists.2 ⟨m, hgraph id m hm⟩
  array := fun name id hid => by
    obtain ⟨m, wrapper, hm, hdeps⟩ := h.array name id hid
    exact ⟨m, wrapper, hgraph id m hm, hdeps⟩

/-- **What goes takes its entries with it**, and what is entered for an array does not outlive its
wrapper. -/
theorem Coupled.forget (h : r.Coupled g) (hsorted : r.Sorted) (id : ModuleId) :
    (r.forget ((g.removeWithDependents id).1.map (·.id))).Coupled
    (g.removeWithDependents id).2 where
  wrapper := fun name found hfound => by
    rw [hsorted.find?_wrappers_forget] at hfound
    rw [ModuleGraph.contains, ModuleGraph.get?_of_not_mem_removed hfound.2]
    exact h.wrapper name found hfound.1
  array := fun name found hfound => by
    rw [hsorted.find?_arrays_forget] at hfound
    obtain ⟨m, wrapper, hm, hdeps, hwrapper⟩ := h.array name found hfound.1
    have hleft := (ModuleGraph.get?_of_not_mem_removed hfound.2).trans hm
    -- what is left depends on nothing that went
    have hkept :=
      (ModuleGraph.not_dangling (List.mem_of_find?_eq_some hleft)
        (hdeps ▸ List.mem_singleton_self _)).2
    exact ⟨m, wrapper, hleft, hdeps, hsorted.find?_wrappers_forget.2 ⟨hwrapper, hkept⟩⟩

/-- A name that had no wrapper gets one that is loaded. -/
theorem Coupled.enterWrapper (h : r.Coupled g) (hfree : r.wrappers.find? name = none)
    (hid : g.contains id = true) :
    Coupled { r with wrappers := r.wrappers.insert name id } g where
  wrapper := fun other found hfound => by
    rw [NameMap.find?_insert] at hfound
    split at hfound
    · cases hfound
      exact hid
    · exact h.wrapper other found hfound
  array := fun other found hfound => by
    obtain ⟨m, wrapper, hm, hdeps, hwrapper⟩ := h.array other found hfound
    refine ⟨m, wrapper, hm, hdeps, ?_⟩
    rw [NameMap.find?_insert, if_neg, hwrapper]
    -- an array of this name would have had a wrapper
    rintro rfl
    cases hfree.symm.trans hwrapper

/-- A name gets an array that is loaded and depends on the wrapper of the name. -/
theorem Coupled.enterArray (h : r.Coupled g) {wrapper : ModuleId} {m : Module}
    (hm : g.get? id = some m) (hdeps : m.deps = [wrapper])
    (hwrapper : r.wrappers.find? name = some wrapper) :
    Coupled { r with arrays := r.arrays.insert name id } g where
  wrapper := h.wrapper
  array := fun other found hfound => by
    rw [NameMap.find?_insert] at hfound
    split at hfound
    · rename_i heq
      cases hfound
      exact ⟨m, wrapper, hm, hdeps, heq ▸ hwrapper⟩
    · exact h.array other found hfound

end Registry

namespace Workspace

variable {w w₁ w' : Workspace} {declared : Option String}

/-! ## Steps -/

/-- A step of the work on modules and containers, with the name of the container that it declares,
if it does. -/
inductive Step (w : Workspace) : Option String → Workspace → Prop
  /-- A unit is compiled against any modules, and may be refused or fail. -/
  | compile {unit : SourceUnit} {deps : List Module} {r : Except CompileError Module}
      {w' : Workspace} :
      (Work.compile unit deps).run w = .ok r w' → Step w none w'
  /-- A file is loaded, or cannot be. -/
  | load {name path : String} {deps : List Module} {r : Option Module} {w' : Workspace} :
      loadNamed name path deps w = .ok r w' → Step w none w'
  /-- A module that was compiled is taken in. -/
  | adopt {m : Module} {w' : Workspace} : w.library.find? m.id = some m →
      Work.adopt m w = .ok () w' → Step w none w'
  /-- A module is unloaded, loaded or not. -/
  | unload {m : Module} {gone : List ModuleId} {w' : Workspace} : Work.unload m w = .ok gone w' →
      Step w none w'
  /-- A wrapper is declared. -/
  | wrapper {name : String} {inner : Fragment} {m : Module} {w' : Workspace} :
      (declareWrapper name inner).run w = .ok (.ok m) w' → Step w (some name) w'
  /-- An array is declared. -/
  | array {elem : TypeExpr} {m wrapper : Module} {w' : Workspace} :
      (declareArray elem).run w = .ok (.ok (m, wrapper)) w' → Step w (some elem.arrayName) w'
  /-- A wrapper could not be declared. -/
  | noWrapper {name : String} {inner : Fragment} {e : ContainerError} {w' : Workspace} :
      (declareWrapper name inner).run w = .ok (.error e) w' → Step w none w'
  /-- An array could not be declared. -/
  | noArray {elem : TypeExpr} {e : ContainerError} {w' : Workspace} :
      (declareArray elem).run w = .ok (.error e) w' → Step w none w'
  /-- Anything else leaves library, graph and registry alone. -/
  | elsewhere {w' : Workspace} : w.Alike w' → w'.registry = w.registry → Step w none w'

/-- Workspaces that come about by such steps, if the modules of a container are taken in when it is
declared. -/
inductive Stocked : Workspace → Prop
  | initial (limit : Nat) (files : Files) : Stocked (.initial limit files)
  | step {w w' : Workspace} : Stocked w → w.Step none w' → Stocked w'
  | wrapper {w w₁ w' : Workspace} {name : String} {inner : Fragment} {m : Module} : Stocked w →
      (declareWrapper name inner).run w = .ok (.ok m) w₁ → Work.adopt m w₁ = .ok () w' → Stocked w'
  | array {w w₁ w₂ w' : Workspace} {elem : TypeExpr} {m wrapper : Module} : Stocked w →
      (declareArray elem).run w = .ok (.ok (m, wrapper)) w₁ →
      Work.adopt wrapper w₁ = .ok () w₂ → Work.adopt m w₂ = .ok () w' → Stocked w'

/-- What a step that declares nothing does: it takes in a module at most, or takes one out with what
reaches it. -/
inductive Shift (w w' : Workspace) : Prop
  | spares : w.Spares w' → Shift w w'
  | gains (m : Module) : w.library.Grows w'.library → w'.library.find? m.id = some m →
      w'.graph = w.graph.insert m → w'.registry = w.registry → Shift w w'
  | loses (id : ModuleId) :
      w'.library = w.library → w'.graph = (w.graph.removeWithDependents id).2 →
      w'.registry = w.registry.forget ((w.graph.removeWithDependents id).1.map (·.id)) → Shift w w'

theorem Alike.spares (h : w.Alike w') (hregistry : w'.registry = w.registry) : w.Spares w' :=
  ⟨h.library ▸ .refl _, h.graph, hregistry⟩

/-- What unloading a module changes. -/
theorem unload_outcome {m : Module} {gone : List ModuleId} (h : Work.unload m w = .ok gone w') :
    w'.library = w.library ∧ w'.graph = (w.graph.removeWithDependents m.id).2 ∧
      w'.registry = w.registry.forget ((w.graph.removeWithDependents m.id).1.map (·.id)) := by
  cases h
  exact ⟨rfl, rfl, rfl⟩

/-- **A step that declares nothing shifts a module**, or none. -/
theorem Step.shift (h : w.Step none w') : w.Shift w' := by
  cases h with
  | compile hcompile => exact .spares (spares_of_compile hcompile)
  | load hload =>
    obtain ⟨hregistry, hsteps⟩ := loadNamed_steps hload
    rcases hsteps with ⟨-, halike⟩ | ⟨text, result, w₁, hcompile, hrest⟩
    · exact .spares (halike.spares hregistry)
    obtain ⟨hgrows, hgraph, -⟩ := spares_of_compile hcompile
    rcases hrest with ⟨-, halike⟩ | ⟨m, rfl, -, hlibrary, hinsert⟩
    · exact .spares ⟨halike.library ▸ hgrows, halike.graph.trans hgraph, hregistry⟩
    · obtain ⟨hid, -, hpush⟩ := module_of_compile hcompile
      have hfound : w'.library.find? m.id = some m := by
        rw [hlibrary, hpush, hid]
        exact Source.find?_push_nextId _ _
      exact .gains m (hlibrary ▸ hgrows) hfound (hgraph ▸ hinsert) hregistry
  | adopt hfound hadopt =>
    cases hadopt
    exact .gains _ (.refl _) hfound rfl rfl
  | unload hunload =>
    obtain ⟨hlibrary, hgraph, hregistry⟩ := unload_outcome hunload
    exact .loses _ hlibrary hgraph hregistry
  | noWrapper hrun => exact .spares (spares_of_declareWrapper hrun)
  | noArray hrun => exact .spares (spares_of_declareArray hrun)
  | elsewhere halike hregistry => exact .spares (halike.spares hregistry)

/-! ## What steps keep -/

/-- The graph is one of the library, and graph and tables are in order. -/
structure Tidy (w : Workspace) : Prop where
  held : w.library.Holds w.graph
  graph_sorted : w.graph.Sorted
  sorted : w.registry.Sorted

theorem tidy_initial (limit : Nat) (files : Files) : (Workspace.initial limit files).Tidy :=
  ⟨nofun, ModuleGraph.sorted_empty, NameMap.sorted_empty, NameMap.sorted_empty⟩

theorem Tidy.shift (h : w.Tidy) (hshift : w.Shift w') : w'.Tidy := by
  cases hshift with
  | spares hspares =>
    obtain ⟨hgrows, hgraph, hregistry⟩ := hspares
    exact ⟨hgraph ▸ h.held.grow hgrows, hgraph ▸ h.graph_sorted, hregistry ▸ h.sorted⟩
  | gains m hgrows hm hgraph hregistry =>
    exact ⟨hgraph ▸ (h.held.grow hgrows).insert hm, hgraph ▸ h.graph_sorted.insert m,
      hregistry ▸ h.sorted⟩
  | loses id hlibrary hgraph hregistry =>
    exact ⟨hgraph ▸ hlibrary ▸ h.held.remove id, hgraph ▸ h.graph_sorted.removeWithDependents id,
      hregistry ▸ h.sorted.forget _⟩

theorem Tidy.gainsWrapper (h : w.Tidy) {name : String} {m : Module}
    (hgains : w.GainsWrapper name m w') :
    w'.Tidy where
  held := by
    rw [hgains.graph, hgains.library]
    exact h.held.grow (Library.grows_push _ _)
  graph_sorted := hgains.graph ▸ h.graph_sorted
  sorted := by
    rw [hgains.registry]
    exact ⟨h.sorted.1.insert _ _, h.sorted.2⟩

theorem Tidy.gainsArray (h : w.Tidy) {name : String} {m wrapper : Module}
    (hgains : w.GainsArray name m wrapper w') :
    w'.Tidy where
  held := by
    rw [hgains.graph, hgains.library]
    exact h.held.grow ((Library.grows_push _ _).trans (Library.grows_push _ _))
  graph_sorted := hgains.graph ▸ h.graph_sorted
  sorted := by
    rw [hgains.registry]
    exact ⟨h.sorted.1.insert _ _, h.sorted.2.insert _ _⟩

/-- **Every step leaves a workspace tidy.** -/
theorem Tidy.step (h : w.Tidy) (hstep : w.Step declared w') : w'.Tidy := by
  cases declared with
  | none => exact h.shift hstep.shift
  | some name =>
    cases hstep with
    | wrapper hdeclare => exact h.gainsWrapper (gains_of_declareWrapper hdeclare)
    | array hdeclare => exact h.gainsArray (gains_of_declareArray hdeclare)

theorem Tidy.adopt (h : w.Tidy) {m : Module} (hm : w.library.find? m.id = some m)
    (hadopt : Work.adopt m w = .ok () w') : w'.Tidy :=
  h.step (.adopt hm hadopt)

theorem GainsWrapper.find? {name : String} {m : Module} (h : w.GainsWrapper name m w') :
    w'.library.find? m.id = some m := by
  rw [h.library, h.id]
  exact Source.find?_push_nextId _ _

theorem GainsArray.find? {name : String} {m wrapper : Module} (h : w.GainsArray name m wrapper w') :
    w'.library.find? wrapper.id = some wrapper ∧ w'.library.find? m.id = some m := by
  rw [h.library, h.id, h.wrapper_id]
  exact ⟨Library.grows_push _ _ _ _ (Source.find?_push_nextId _ _), Source.find?_push_nextId _ _⟩

theorem GainsArray.tidy_adopt {w₂ : Workspace} {name : String} {m wrapper : Module}
    (h : w.GainsArray name m wrapper w₁) (hw : w.Tidy)
    (hwrapper : Work.adopt wrapper w₁ = .ok () w₂) (hadopt : Work.adopt m w₂ = .ok () w') :
    w'.Tidy := by
  refine ((hw.gainsArray h).adopt h.find?.1 hwrapper).adopt ?_ hadopt
  cases hwrapper
  exact h.find?.2

/-- What shifts leaves the tables in step with the graph. -/
theorem Shift.coupled (h : w.Shift w') (hw : w.Tidy) (hcoupled : w.registry.Coupled w.graph) :
    w'.registry.Coupled w'.graph := by
  cases h with
  | spares hspares => exact hspares.graph ▸ hspares.registry ▸ hcoupled
  | gains m hgrows hm hgraph hregistry =>
    exact hgraph ▸ hregistry ▸ hcoupled.mono fun id n hn => (hw.held.grow hgrows).get?_insert hm hn
  | loses id hlibrary hgraph hregistry => exact hgraph ▸ hregistry ▸ hcoupled.forget hw.sorted id

/-- So does a wrapper that is declared and taken in. -/
theorem GainsWrapper.coupled {name : String} {m : Module}
    (h : w.GainsWrapper name m w₁) (hw : w.Tidy) (hcoupled : w.registry.Coupled w.graph)
    (hadopt : Work.adopt m w₁ = .ok () w') :
    w'.registry.Coupled w'.graph := by
  cases hadopt
  have hgraph : ∀ id n, w.graph.get? id = some n → (w₁.graph.insert m).get? id = some n :=
    fun id n hn => (hw.gainsWrapper h).held.get?_insert h.find? (h.graph ▸ hn)
  have hloaded : (w₁.graph.insert m).contains m.id = true := by
    rw [ModuleGraph.contains, ModuleGraph.get?_insert, if_pos rfl]
    rfl
  exact h.registry ▸ (hcoupled.mono hgraph).enterWrapper h.free hloaded

/-- And so does an array, with its wrapper. -/
theorem GainsArray.coupled {w₂ : Workspace} {name : String} {m wrapper : Module}
    (h : w.GainsArray name m wrapper w₁) (hw : w.Tidy) (hcoupled : w.registry.Coupled w.graph)
    (hwrapper : Work.adopt wrapper w₁ = .ok () w₂) (hadopt : Work.adopt m w₂ = .ok () w') :
    w'.registry.Coupled w'.graph := by
  obtain ⟨hfound, hfound'⟩ := h.find?
  have hheld : w₁.library.Holds w₁.graph := (hw.gainsArray h).held
  cases hwrapper
  cases hadopt
  have hgraph :
      ∀ id n, w.graph.get? id = some n → ((w₁.graph.insert wrapper).insert m).get? id = some n :=
    fun id n hn => (hheld.insert hfound).get?_insert hfound'
      (hheld.get?_insert hfound (h.graph ▸ hn))
  have hloaded : ((w₁.graph.insert wrapper).insert m).contains wrapper.id = true :=
    Option.isSome_iff_exists.2 ⟨wrapper, (hheld.insert hfound).get?_insert hfound'
      (ModuleGraph.get?_insert.trans (if_pos rfl))⟩
  have hentered := (hcoupled.mono hgraph).enterWrapper h.free.1 hloaded
  refine h.registry ▸ hentered.enterArray ?_ h.deps ?_
  · exact ModuleGraph.get?_insert.trans (if_pos rfl)
  · exact (NameMap.find?_insert _ _ _ _).trans (if_pos rfl)

/-- **Registry and graph are in step**, in whatever order modules come and go. -/
theorem Stocked.coupled (h : w.Stocked) : w.Tidy ∧ w.registry.Coupled w.graph := by
  induction h with
  | initial limit files => exact ⟨tidy_initial limit files, Registry.coupled_empty _⟩
  | step _ hstep ih => exact ⟨ih.1.step hstep, hstep.shift.coupled ih.1 ih.2⟩
  | wrapper _ hdeclare hadopt ih =>
    have hgains := gains_of_declareWrapper hdeclare
    exact ⟨(ih.1.gainsWrapper hgains).adopt hgains.find? hadopt, hgains.coupled ih.1 ih.2 hadopt⟩
  | array _ hdeclare hwrapper hadopt ih =>
    have hgains := gains_of_declareArray hdeclare
    exact ⟨hgains.tidy_adopt ih.1 hwrapper hadopt, hgains.coupled ih.1 ih.2 hwrapper hadopt⟩

/-! ## Names -/

/-- What the registry tells of its modules, and of names. -/
structure RegistryKept (w : Workspace) : Prop where
  /-- The modules of both tables are loaded. -/
  loaded :
    ∀ e ∈ w.registry.wrappers.entries ++ w.registry.arrays.entries, w.graph.contains e.2 = true
  /-- The one dependency of an array is the wrapper of its name. -/
  paired : ∀ name id, w.registry.arrays.find? name = some id →
    ∃ m wrapper, w.graph.get? id = some m ∧ m.deps = [wrapper] ∧
      w.registry.wrappers.find? name = some wrapper
  /-- A wrapper is a duplicate just if there is a wrapper of its name, -/
  wrapper_taken : ∀ name inner,
    (∃ other w', (declareWrapper name inner).run w = .ok (.error (.duplicate other)) w') ↔
      w.registry.wrappers.contains name = true
  /-- and an array just if there is an array or a wrapper of its name. -/
  array_taken :
    ∀ elem, (∃ other w', (declareArray elem).run w = .ok (.error (.duplicate other)) w') ↔
    (w.registry.arrays.contains elem.arrayName = true ∨
      w.registry.wrappers.contains elem.arrayName = true)
  /-- A wrapper that cannot be declared leaves both tables as they are, -/
  wrapper_fails : ∀ name inner e w', (declareWrapper name inner).run w = .ok (.error e) w' →
    w'.registry = w.registry
  /-- and so does an array. -/
  array_fails :
    ∀ elem e w', (declareArray elem).run w = .ok (.error e) w' → w'.registry = w.registry

/-- **The registry is in step with the graph and tells which names are taken**, in whatever order
modules are compiled, loaded, declared and unloaded, and whatever of it fails. -/
theorem Stocked.keeps_registry (h : w.Stocked) : w.RegistryKept where
  loaded := by
    rintro ⟨name, id⟩ he
    rcases List.mem_append.1 he with he | he
    · exact h.coupled.2.wrapper name id (h.coupled.1.sorted.1.mem_entries_iff.1 he)
    · obtain ⟨m, wrapper, hm, -⟩ :=
        h.coupled.2.array name id (h.coupled.1.sorted.2.mem_entries_iff.1 he)
      exact Option.isSome_iff_exists.2 ⟨m, hm⟩
  paired := h.coupled.2.array
  wrapper_taken := fun _ _ => declareWrapper_duplicate_iff
  array_taken := fun _ => declareArray_duplicate_iff
  wrapper_fails := fun _ _ _ _ hrun => (spares_of_declareWrapper hrun).registry
  array_fails := fun _ _ _ hrun => (spares_of_declareArray hrun).registry

/-- The array of bytes can be declared where there is nothing yet, and taken in. -/
theorem exists_bytes : ∃ ops wrapper w₁ w₂ w,
    (declareArray byteType).run (.initial 4096 (.empty "/")) = .ok (.ok (ops, wrapper)) w₁ ∧
      Work.adopt wrapper w₁ = .ok () w₂ ∧ Work.adopt ops w₂ = .ok () w := by
  obtain ⟨ops, wrapper, w₁, _, _, _, _, hdeclare, -⟩ := exists_of_makesArray makesArray_bytes
  exact ⟨ops, wrapper, w₁, _, _, hdeclare, rfl, rfl⟩

/-- The array of bytes was declared: both tables have its name. -/
theorem Stocked.keeps_registry_bytes : ∃ w wrapper ops, w.Stocked ∧ w.RegistryKept ∧
    w.registry = ⟨⟨[("array_u8", wrapper)]⟩, ⟨[("array_u8", ops)]⟩⟩ ∧
    (∃ other w', (declareArray byteType).run w = .ok (.error (.duplicate other)) w') := by
  obtain ⟨ops, wrapper, w₁, w₂, w, hdeclare, hwrapper, hadopt⟩ := exists_bytes
  have hname : byteType.arrayName = "array_u8" := by decide +kernel
  have hstocked : w.Stocked := .array (.initial 4096 (.empty "/")) hdeclare hwrapper hadopt
  have hkept := Stocked.keeps_registry hstocked
  have hregistry := (gains_of_declareArray hdeclare).registry
  rw [hname] at hregistry
  have hsame : w.registry = w₁.registry := by
    cases hwrapper
    cases hadopt
    rfl
  refine ⟨w, wrapper.id, ops.id, hstocked, hkept, hsame.trans hregistry,
    (hkept.array_taken _).2 (.inl ?_)⟩
  rw [hsame, hregistry, hname, NameMap.contains, NameMap.find?_insert, if_pos rfl]
  rfl

end Workspace

end Kiln
