import Kiln.Project.Session
import Kiln.Proofs.Workspace.Stocked
/-!
# Sessions that were prepared

A manifest that could be read lists its library modules so that each depends on modules before it
and on arrays (`Manifest.Ordered`). Names are told apart again when a session is prepared, in the
table of what was made so far; the table has the names of the manifest, so nothing is missing in it.
Of a session that could be prepared everything is known: what was made for which part of the
manifest, what that depends on, and that there is nothing else (`Session.Built`,
`Manifest.prepare_builds`).
-/

namespace Kiln

open Work

/-! ## Manifests -/

namespace Manifest

variable {fs : Files} {root : String} {arrays : List String}

/-- Library modules that depend on arrays and on modules before them, of which some have been listed
already. No two have one name. -/
inductive Ordered (arrays : List String) : List String → List ModuleEntry → Prop
  | nil {before : List String} : Ordered arrays before []
  | cons {before : List String} {entry : ModuleEntry} {entries : List ModuleEntry} :
      entry.name ∉ before →
      (∀ dep ∈ entry.deps, dep ∈ arrays ++ before) →
      Ordered arrays (before ++ [entry.name]) entries →
      Ordered arrays before (entry :: entries)

theorem any_name_iff {before : List ModuleEntry} {name : String} :
    before.any (·.name == name) = true ↔ name ∈ before.map (·.name) := by
  rw [List.any_eq_true, List.mem_map]
  simp only [beq_iff_eq]

/-- The names of modules in order differ, also from those before. -/
theorem Ordered.nodup {before : List String} {entries : List ModuleEntry}
    (h : Ordered arrays before entries) (hbefore : before.Nodup) :
    (before ++ entries.map (·.name)).Nodup := by
  induction h with
  | nil => rwa [List.map_nil, List.append_nil]
  | cons hnew _ _ ih =>
    have hnodup := ih (List.nodup_append_comm.1 (List.nodup_cons.2 ⟨hnew, hbefore⟩))
    rwa [List.append_assoc] at hnodup

/-- A module is added under a new name, and depends on names that are known. -/
theorem addModule_ok {before after : List ModuleEntry} {m : ModuleEntry}
    (h : addModule fs root arrays before m = .ok after) :
      ∃ path, after = before ++ [{ m with path }] ∧
      m.name ∉ before.map (·.name) ∧ ∀ dep ∈ m.deps, dep ∈ arrays ++ before.map (·.name) := by
  rw [addModule] at h
  dsimp only at h
  by_cases hnew : before.any (·.name == m.name) = true
  · rw [if_pos hnew] at h
    split at h <;> cases h
  rw [if_neg hnew] at h
  split at h
  · cases h
  · rename_i hdeps
    obtain ⟨path, -, h⟩ := ok_of_bind h
    cases h
    refine ⟨path, rfl, fun hmem => hnew (any_name_iff.2 hmem), fun dep hdep => ?_⟩
    have hknown := List.find?_eq_none.1 hdeps dep hdep
    rw [Bool.not_eq_true, Bool.not_eq_false', Bool.or_eq_true, any_name_iff,
      List.contains_iff_mem] at hknown
    exact List.mem_append.2 hknown.symm

theorem ordered_of_foldlM : ∀ {ms before out : List ModuleEntry},
    ms.foldlM (addModule fs root arrays) before = .ok out →
      ∃ added, out = before ++ added ∧ Ordered arrays (before.map (·.name)) added
  | [], before, out, h => by
    cases h
    exact ⟨[], (List.append_nil _).symm, .nil⟩
  | m :: ms, before, out, h => by
    rw [List.foldlM_cons] at h
    obtain ⟨after, hadd, h⟩ := ok_of_bind h
    obtain ⟨path, rfl, hnew, hdeps⟩ := addModule_ok hadd
    obtain ⟨added, rfl, hordered⟩ := ordered_of_foldlM h
    rw [List.map_append] at hordered
    exact ⟨{ m with path } :: added, by rw [List.append_assoc]; rfl, .cons hnew hdeps hordered⟩

/-- **A manifest that could be read lists its modules in order.** -/
theorem ordered_of_parse {path content : String} {manifest : Manifest}
    (h : parse fs path content = .ok manifest) :
    Ordered (manifest.arrays.map (·.arrayName)) [] manifest.modules := by
  unfold parse at h
  split at h
  · obtain ⟨arrays, -, h⟩ := ok_of_bind h
    obtain ⟨modules, hmodules, h⟩ := ok_of_bind h
    cases h
    obtain ⟨added, rfl, hordered⟩ := ordered_of_foldlM hmodules
    exact hordered
  · cases h

end Manifest

/-! ## What names stand for -/

namespace Session

/-- An array, with the modules of its operations and of its wrapper. -/
abbrev MadeArray := TypeExpr × Module × Module

/-- An entry for a library module, with its module. -/
abbrev MadeModule := ModuleEntry × Module

/-- What a name stands for: the operations and the wrapper of the array of that name, or if there is
none the module of that name. -/
inductive StandsFor (arrays : List MadeArray) (modules : List MadeModule) (name : String) :
    List Module → Prop
  | array {elem : TypeExpr} {ops wrapper : Module} : (elem, ops, wrapper) ∈ arrays →
      elem.arrayName = name →
      StandsFor arrays modules name [ops, wrapper]
  | module {entry : ModuleEntry} {m : Module} : (∀ a ∈ arrays, a.1.arrayName ≠ name) →
      (entry, m) ∈ modules →
      entry.name = name → StandsFor arrays modules name [m]

/-- The table of the names of arrays -/
def namedArrays (arrays : List MadeArray) : Named :=
  arrays.map fun a => (a.1.arrayName, [a.2.1, a.2.2])

/-- and of modules. -/
def namedModules (modules : List MadeModule) : Named := modules.map fun m => (m.1.name, [m.2])

variable {arrays : List MadeArray} {modules : List MadeModule} {named : Named} {name : String}
  {ms : List Module}

/-- What the table has for a name is what it stands for. -/
theorem standsFor_of_lookup
    (h : (namedArrays arrays ++ namedModules modules).lookup name = some ms) :
    StandsFor arrays modules name ms := by
  rw [List.lookup_append] at h
  cases harray : (namedArrays arrays).lookup name with
  | some found =>
    rw [harray] at h
    cases h
    obtain ⟨before, after, heq, -⟩ := List.lookup_eq_some_iff.1 harray
    have hmem : (name, ms) ∈ namedArrays arrays := heq ▸ List.mem_append_right _ List.mem_cons_self
    obtain ⟨⟨elem, ops, wrapper⟩, ha, hpair⟩ := List.mem_map.1 hmem
    cases hpair
    exact .array ha rfl
  | none =>
    rw [harray, Option.none_or] at h
    obtain ⟨before, after, heq, -⟩ := List.lookup_eq_some_iff.1 h
    have hmem : (name, ms) ∈ namedModules modules :=
      heq ▸ List.mem_append_right _ List.mem_cons_self
    obtain ⟨⟨entry, m⟩, hm, hpair⟩ := List.mem_map.1 hmem
    cases hpair
    refine .module (fun a ha hname => ?_) hm rfl
    -- an array of this name would have been found first
    have hother := List.lookup_eq_none_iff.1 harray _ (List.mem_map_of_mem ha)
    exact bne_iff_ne.1 hother hname.symm

/-- The modules of an entry's dependencies are those that the names stand for, one after the
other. -/
theorem resolve_ok {entry : ModuleEntry} {found : List Module}
    (h : resolve named entry = .ok found) :
    ∃ groups, List.Forall₂ (fun dep ms => named.lookup dep = some ms) entry.deps groups ∧
      found = groups.flatten := by
  obtain ⟨groups, hgroups, h⟩ := ok_of_bind h
  cases h
  refine ⟨groups, (forall₂_of_mapM hgroups).imp fun dep ms hdep => ?_, rfl⟩
  split at hdep
  · rename_i heq
    cases hdep
    exact heq
  · cases hdep

/-- If the table has all names nothing is missing. -/
theorem exists_resolve {entry : ModuleEntry} (h : ∀ dep ∈ entry.deps, dep ∈ named.map (·.1)) :
    ∃ found, resolve named entry = .ok found := by
  rcases hresolve : resolve named entry with e | found
  · rcases error_of_bind hresolve with hmissing | ⟨_, -, hcases⟩
    · obtain ⟨dep, hdep, hnone⟩ := error_of_mapM hmissing
      split at hnone
      · cases hnone
      · rename_i hlookup
        obtain ⟨⟨_, ms⟩, hmem, rfl⟩ := List.mem_map.1 (h dep hdep)
        exact absurd rfl (bne_iff_ne.1 (List.lookup_eq_none_iff.1 hlookup _ hmem))
    · cases hcases
  · exact ⟨found, rfl⟩

/-! ## Arrays -/

/-- The array is declared: its modules are called after it, the one depends on the other, and the
registry has both. -/
structure Declares (w : Workspace) (a : MadeArray) : Prop where
  named : a.2.1.name = a.1.arrayName ++ "_ops" ∧ a.2.2.name = a.1.arrayName
  deps : a.2.1.deps = [a.2.2.id] ∧ a.2.2.deps = []
  entered : w.registry.arrays.find? a.1.arrayName = some a.2.1.id ∧
    w.registry.wrappers.find? a.1.arrayName = some a.2.2.id

/-- What the preparation of arrays comes to. -/
structure MakesArrays (w : Workspace) (arrays : List MadeArray) (w' : Workspace) : Prop where
  tidy : w'.Tidy
  /-- The modules are taken in, each wrapper before its operations. -/
  graph : w'.graph.modules = w.graph.modules ++ arrays.flatMap fun a => [a.2.2, a.2.1]
  declares : ∀ a ∈ arrays, Declares w' a
  /-- Their names were free, -/
  free : ∀ a ∈ arrays, w.registry.arrays.find? a.1.arrayName = none
  distinct : (arrays.map (·.1.arrayName)).Nodup
  /-- and all other names are what they were. -/
  keeps : ∀ name, (∀ a ∈ arrays, a.1.arrayName ≠ name) →
    w'.registry.arrays.find? name = w.registry.arrays.find? name ∧
      w'.registry.wrappers.find? name = w.registry.wrappers.find? name

variable {w w₁ w₂ w' : Workspace}

theorem run_of_adapt {α ε ε' : Type} {f : ε → ε'} {x : ExceptT ε Work α} {r : Except ε' α}
    (h : (ExceptT.adapt f x).run w = .ok r w') : ∃ r₀, x.run w = .ok r₀ w' ∧ r = r₀.mapError f := by
  have hmap : EStateM.map (Except.mapError f) x.run w = .ok r w' := h
  unfold EStateM.map at hmap
  rcases hx : x.run w with ⟨r₀, w₁⟩ | ⟨e, w₁⟩
  · rw [hx] at hmap
    cases hmap
    exact ⟨r₀, rfl, rfl⟩
  · rw [hx] at hmap
    cases hmap

/-- A module that the library numbered next comes last in the graph. -/
theorem insert_next {lib : Library} {g : ModuleGraph} {m : Module} (h : lib.Holds g)
    (hid : m.id = lib.nextId) :
    (g.insert m).modules = g.modules ++ [m] := by
  refine ModuleGraph.insert_modules fun n hn => ?_
  rw [hid]
  exact (Array.getElem?_eq_some_iff.1 (h n hn)).1

/-- The modules of an array that is declared and taken in come last. -/
theorem graph_of_gainsArray {name : String} {ops wrapper : Module} (hw : w.Tidy)
    (h : w.GainsArray name ops wrapper w₁) :
    ((w₁.graph.insert wrapper).insert ops).modules = w.graph.modules ++ [wrapper, ops] := by
  have hwrapper : (w.library.push wrapper).find? wrapper.id = some wrapper := by
    rw [h.wrapper_id]
    exact Source.find?_push_nextId _ _
  have hheld := (hw.held.grow (Library.grows_push w.library wrapper)).insert hwrapper
  rw [h.graph, insert_next hheld h.id, insert_next hw.held h.wrapper_id, List.append_assoc]
  rfl

theorem makesArrays_cons {elem : TypeExpr} {ops wrapper : Module} (hw : w.Tidy)
    (h : w.GainsArray elem.arrayName ops wrapper w₁) (hwrapper : Work.adopt wrapper w₁ = .ok () w₂)
    (hops : Work.adopt ops w₂ = .ok () w') {last : Workspace} (hrest : MakesArrays w' arrays last) :
    MakesArrays w ((elem, ops, wrapper) :: arrays) last := by
  have hregistry : w'.registry = w₁.registry := by
    cases hwrapper
    cases hops
    rfl
  have hgraph : w'.graph.modules = w.graph.modules ++ [wrapper, ops] := by
    cases hwrapper
    cases hops
    exact graph_of_gainsArray hw h
  rw [h.registry] at hregistry
  have hfind : ∀ (m : NameMap ModuleId) (id : ModuleId) (name : String),
      (m.insert elem.arrayName id).find? name =
      if name = elem.arrayName then some id else m.find? name :=
    fun m id name => NameMap.find?_insert m _ _ _
  -- the names of the other arrays were free behind this one, so they differ from its name
  have hother :
      ∀ a ∈ arrays, a.1.arrayName ≠ elem.arrayName ∧
        w.registry.arrays.find? a.1.arrayName = none := by
    intro a ha
    have hfree := hrest.free a ha
    rw [hregistry, hfind] at hfree
    split at hfree
    · cases hfree
    · rename_i hne
      exact ⟨hne, hfree⟩
  have hkept := hrest.keeps elem.arrayName fun a ha => (hother a ha).1
  refine { tidy := hrest.tidy, graph := ?_, declares := ?_, free := ?_,
           distinct := ?_, keeps := ?_ }
  · rw [hrest.graph, hgraph, List.append_assoc]
    rfl
  · refine List.forall_mem_cons.2
      ⟨⟨⟨h.named.2, h.named.1⟩, ⟨h.deps, h.wrapper_deps⟩, ?_, ?_⟩, hrest.declares⟩
    · rw [hkept.1, hregistry, hfind, if_pos rfl]
    · rw [hkept.2, hregistry, hfind, if_pos rfl]
  · exact List.forall_mem_cons.2 ⟨h.free.2, fun a ha => (hother a ha).2⟩
  · refine List.nodup_cons.2 ⟨fun hmem => ?_, hrest.distinct⟩
    obtain ⟨a, ha, heq⟩ := List.mem_map.1 hmem
    exact (hother a ha).1 heq
  · intro name hname
    obtain ⟨hne, hname⟩ := List.forall_mem_cons.1 hname
    obtain ⟨harrays, hwrappers⟩ := hrest.keeps name hname
    rw [harrays, hwrappers, hregistry, hfind, hfind, if_neg (Ne.symm hne), if_neg (Ne.symm hne)]
    exact ⟨rfl, rfl⟩

/-- **Either an array cannot be declared or all are**, and the table has their names. -/
theorem prepareArrays_outcome :
    ∀ {elems : List TypeExpr} {w : Workspace} {r : Except SessionError Named}, w.Tidy →
    (prepareArrays elems).run w = .ok r w' → (∃ e, r = .error (.container e)) ∨
      ∃ arrays, r = .ok (namedArrays arrays) ∧ arrays.map (·.1) = elems ∧ MakesArrays w arrays w'
  | [], w, r, hw, h => by
    cases h
    refine .inr ⟨[], rfl, rfl, ?_⟩
    exact ⟨hw, (List.append_nil _).symm, nofun, nofun, List.nodup_nil, fun name _ => ⟨rfl, rfl⟩⟩
  | elem :: elems, w, r, hw, h => by
    rcases run_of_bind h with ⟨e, hdeclare, rfl⟩ | ⟨⟨ops, wrapper⟩, w₁, hdeclare, h⟩
    · obtain ⟨r₀, -, hr⟩ := run_of_adapt hdeclare
      obtain ⟨e', -, rfl⟩ := error_of_mapError hr.symm
      exact .inl ⟨e', rfl⟩
    obtain ⟨r₀, hdeclare, hr⟩ := run_of_adapt hdeclare
    obtain rfl := ok_of_mapError hr.symm
    have hgains := gains_of_declareArray hdeclare
    -- the two modules are taken in, which cannot fail
    obtain ⟨_, w₂, hwrapper, h⟩ := run_of_lift_bind h
    obtain ⟨_, w₃, hops, h⟩ := run_of_lift_bind h
    have hw₃ : w₃.Tidy := hgains.tidy_adopt hw hwrapper hops
    rcases run_of_bind h with ⟨e, hrest, rfl⟩ | ⟨named, w₄, hrest, h⟩
    · rcases prepareArrays_outcome hw₃ hrest with ⟨e', hcases⟩ | ⟨_, hcases, -⟩
      · cases hcases
        exact .inl ⟨e', rfl⟩
      · cases hcases
    · cases h
      rcases prepareArrays_outcome hw₃ hrest with ⟨_, hcases⟩ | ⟨arrays, hnamed, rfl, hmakes⟩
      · cases hcases
      · cases hnamed
        exact .inr ⟨(elem, ops, wrapper) :: arrays, rfl, rfl,
          makesArrays_cons hw hgains hwrapper hops hmakes⟩

/-! ## Library modules -/

/-- What the preparation of library modules comes to, of which some were prepared before. -/
structure MakesModules (arrays : List MadeArray) (before : List MadeModule) (w : Workspace)
    (modules : List MadeModule) (w' : Workspace) : Prop where
  tidy : w'.Tidy
  registry : w'.registry = w.registry
  /-- The modules are taken in one after the other. -/
  graph : w'.graph.modules = w.graph.modules ++ modules.map (·.2)
  /-- Each is called as its entry says, and depends on what the names in its entry stand for. -/
  linked : ∀ front entry m back, modules = front ++ (entry, m) :: back → m.name = entry.name ∧
    ∃ groups, List.Forall₂ (StandsFor arrays (before ++ front)) entry.deps groups ∧
      m.deps = groups.flatten.map (·.id)

theorem makesModules_cons {before : List MadeModule} {entry : ModuleEntry} {m : Module}
    {deps : List Module} (hw : w.Tidy)
    (hdeps : resolve (namedArrays arrays ++ namedModules before) entry = .ok deps)
    (hload : loadNamed entry.name entry.path deps w = .ok (some m) w₁)
    (hrest : MakesModules arrays (before ++ [(entry, m)]) w₁ modules w') :
    MakesModules arrays before w ((entry, m) :: modules) w' := by
  obtain ⟨hid, hids, hname, hlibrary, hgraph, hregistry⟩ := module_of_loadNamed hload
  refine { tidy := hrest.tidy, registry := hrest.registry.trans hregistry, graph := ?_,
           linked := ?_ }
  · rw [hrest.graph, hgraph, insert_next hw.held hid, List.append_assoc]
    rfl
  · intro front entry' m' back heq
    rcases front with _ | ⟨first, front⟩
    · cases heq
      obtain ⟨groups, hgroups, rfl⟩ := resolve_ok hdeps
      refine ⟨hname, groups, hgroups.imp fun dep ms hlookup => ?_, hids⟩
      rw [List.append_nil]
      exact standsFor_of_lookup hlookup
    · cases heq
      have hlinked := hrest.linked front entry' m' back rfl
      rwa [List.append_assoc] at hlinked

theorem makesModules_nil {before : List MadeModule} (hw : w.Tidy) :
    MakesModules arrays before w [] w := by
  refine ⟨hw, rfl, (List.append_nil _).symm, fun front entry m back heq => ?_⟩
  exact absurd heq (by simp)

/-- A library module does not load, and those before it do: it was compiled against what the names
in its entry stand for. -/
structure FailsAt (arrays : List MadeArray) (before : List MadeModule) (w : Workspace)
    (entries : List ModuleEntry) (modules : List MadeModule) (entry : ModuleEntry)
    (w' : Workspace) : Prop where
  entries : modules.map (·.1) ++ [entry] <+: entries
  loads : ∃ groups w₁, MakesModules arrays before w modules w₁ ∧
    List.Forall₂ (StandsFor arrays (before ++ modules)) entry.deps groups ∧
    loadNamed entry.name entry.path groups.flatten w₁ = .ok none w'

/-- **Either a module does not load or all do**, and each is compiled against what the names in its
entry stand for. -/
theorem prepareModules_loads :
    ∀ {entries : List ModuleEntry} {before : List MadeModule} {w : Workspace}
    {r : Except SessionError (List Module)}, w.Tidy →
    Manifest.Ordered (arrays.map (·.1.arrayName)) (before.map (·.1.name)) entries →
    (prepareModules (namedArrays arrays ++ namedModules before) entries).run w = .ok r w' →
    (∃ modules entry, FailsAt arrays before w entries modules entry w' ∧
      r = .error (.module entry.name entry.path)) ∨
      ∃ modules, r = .ok (modules.map (·.2)) ∧ modules.map (·.1) = entries ∧
        MakesModules arrays before w modules w'
  | [], before, w, r, hw, _, h => by
    cases h
    exact .inr ⟨[], rfl, rfl, makesModules_nil hw⟩
  | entry :: entries, before, w, r, hw, .cons hnew hnames hordered, h => by
    have htable : (namedArrays arrays ++ namedModules before).map (·.1) =
        arrays.map (·.1.arrayName) ++ before.map (·.1.name) := by
      rw [List.map_append, namedArrays, namedModules, List.map_map, List.map_map]
      rfl
    -- the table has the names that the manifest was checked against, so none of them is missing
    obtain ⟨deps, hdeps⟩ := exists_resolve fun dep hdep => htable ▸ hnames dep hdep
    rw [prepareModules, hdeps] at h
    rcases run_of_bind h with ⟨_, hgiven, -⟩ | ⟨_, _, hgiven, h⟩
    · cases hgiven
    cases hgiven
    obtain ⟨loaded, w₁, hload, h⟩ := run_of_lift_bind h
    rcases loaded with _ | m
    · cases h
      obtain ⟨groups, hgroups, rfl⟩ := resolve_ok hdeps
      refine .inl ⟨[], entry, ⟨⟨entries, rfl⟩, groups, w, makesModules_nil hw, ?_, hload⟩, rfl⟩
      rw [List.append_nil]
      exact hgroups.imp fun _ _ => standsFor_of_lookup
    have hw₁ : w₁.Tidy := hw.step (.load hload)
    have hnext : namedArrays arrays ++ namedModules before ++ [(entry.name, [m])] =
        namedArrays arrays ++ namedModules (before ++ [(entry, m)]) := by
      rw [List.append_assoc, namedModules, namedModules, List.map_append]
      rfl
    have hordered' : Manifest.Ordered (arrays.map (·.1.arrayName))
        ((before ++ [(entry, m)]).map (·.1.name)) entries := by
      rw [List.map_append]
      exact hordered
    dsimp only at h
    rw [hnext] at h
    rcases run_of_bind h with ⟨e, hrest, rfl⟩ | ⟨ms, w₂, hrest, h⟩
    · rcases prepareModules_loads hw₁ hordered' hrest with ⟨modules, failed, hfails, hcases⟩
        | ⟨_, hcases, -⟩
      · cases hcases
        obtain ⟨groups, w₂, hmakes, hgroups, hnone⟩ := hfails.loads
        rw [List.append_assoc] at hgroups
        refine .inl ⟨(entry, m) :: modules, failed, ⟨?_, groups, w₂, ?_, hgroups, hnone⟩, rfl⟩
        · exact List.cons_prefix_cons.2 ⟨rfl, hfails.entries⟩
        · exact makesModules_cons hw hdeps hload hmakes
      · cases hcases
    · cases h
      rcases prepareModules_loads hw₁ hordered' hrest with ⟨_, _, _, hcases⟩
        | ⟨modules, hms, rfl, hmakes⟩
      · cases hcases
      · cases hms
        exact .inr ⟨(entry, m) :: modules, rfl, rfl, makesModules_cons hw hdeps hload hmakes⟩

/-- **Either a module does not load or all do**: none of their dependencies is missing. -/
theorem prepareModules_outcome {entries : List ModuleEntry} {before : List MadeModule}
    {r : Except SessionError (List Module)} (hw : w.Tidy)
    (hordered : Manifest.Ordered (arrays.map (·.1.arrayName)) (before.map (·.1.name)) entries)
    (h : (prepareModules (namedArrays arrays ++ namedModules before) entries).run w = .ok r w') :
    (∃ name path, r = .error (.module name path)) ∨
      ∃ modules, r = .ok (modules.map (·.2)) ∧ modules.map (·.1) = entries ∧
        MakesModules arrays before w modules w' :=
  (prepareModules_loads hw hordered h).imp_left
    fun ⟨_, entry, _, hr⟩ => ⟨entry.name, entry.path, hr⟩

/-! ## Sessions -/

/-- The session that a manifest asks for, with the modules that its arrays and its entries
became. -/
structure Built (manifest : Manifest) (arrays : List MadeArray) (modules : List MadeModule)
    (session : Session) (w : Workspace) : Prop where
  /-- Every array has its two modules, -/
  arrays_eq : arrays.map (·.1) = manifest.arrays
  declares : ∀ a ∈ arrays, Declares w a
  /-- and every entry its module. -/
  modules_eq : modules.map (·.1) = manifest.modules
  /-- It is called as the entry says, and depends on what the names in the entry stand for, in their
  order. -/
  linked : ∀ front entry m back, modules = front ++ (entry, m) :: back → m.name = entry.name ∧
    ∃ groups, List.Forall₂ (StandsFor arrays front) entry.deps groups ∧
      m.deps = groups.flatten.map (·.id)
  /-- No two arrays and no two entries have one name. -/
  distinct : (manifest.arrays.map (·.arrayName)).Nodup ∧ (manifest.modules.map (·.name)).Nodup
  /-- These modules are loaded and no others, each once, -/
  graph : w.graph.modules = arrays.flatMap (fun a => [a.2.2, a.2.1]) ++ modules.map (·.2)
  sorted : w.graph.Sorted
  /-- with all that they depend on. -/
  closed : ∀ n ∈ w.graph.modules, ∀ d ∈ n.deps, w.graph.contains d = true
  /-- The hot module is compiled against the modules of entries, then the operations and the wrapper
  of each array. -/
  deps : session.deps = modules.map (·.2) ++ arrays.flatMap fun a => [a.2.1, a.2.2]
  hot : session.hot = manifest.hot

/-- What a name stands for is among what was made. -/
theorem mem_of_standsFor (h : StandsFor arrays modules name ms) {m : Module} (hm : m ∈ ms) :
    m ∈ arrays.flatMap (fun a => [a.2.2, a.2.1]) ++ modules.map (·.2) := by
  cases h with
  | array ha =>
    refine List.mem_append_left _ (List.mem_flatMap.2 ⟨_, ha, ?_⟩)
    simpa [or_comm] using hm
  | module _ hentry =>
    obtain rfl := List.mem_singleton.1 hm
    exact List.mem_append_right _ (List.mem_map_of_mem hentry)

/-- All that is depended on is among what was made. -/
theorem closed_of_linked {g : ModuleGraph} (hdeclares : ∀ a ∈ arrays, Declares w a)
    (hlinked : ∀ front entry m back, modules = front ++ (entry, m) :: back → m.name = entry.name ∧
      ∃ groups, List.Forall₂ (StandsFor arrays front) entry.deps groups ∧
        m.deps = groups.flatten.map (·.id))
    (hgraph : g.modules = arrays.flatMap (fun a => [a.2.2, a.2.1]) ++ modules.map (·.2)) :
    ∀ n ∈ g.modules, ∀ d ∈ n.deps, g.contains d = true := by
  intro n hn d hd
  rw [ModuleGraph.contains_iff, hgraph]
  rw [hgraph] at hn
  rcases List.mem_append.1 hn with hn | hn
  -- a wrapper depends on nothing, and the operations of an array on its wrapper
  · obtain ⟨a, ha, hn⟩ := List.mem_flatMap.1 hn
    obtain ⟨hops, hwrapper⟩ := (hdeclares a ha).deps
    rcases List.mem_cons.1 hn with rfl | hn
    · rw [hwrapper] at hd
      cases hd
    · obtain rfl := List.mem_singleton.1 hn
      rw [hops] at hd
      obtain rfl := List.mem_singleton.1 hd
      refine List.mem_map_of_mem (List.mem_append_left _ (List.mem_flatMap.2 ⟨a, ha, ?_⟩))
      exact List.mem_cons_self
  -- a module of an entry depends on arrays and on modules in front of it
  · obtain ⟨⟨entry, m⟩, hentry, rfl⟩ := List.mem_map.1 hn
    obtain ⟨front, back, rfl⟩ := List.append_of_mem hentry
    obtain ⟨-, groups, hgroups, hdeps⟩ := hlinked front entry m back rfl
    rw [hdeps] at hd
    obtain ⟨k, hk, rfl⟩ := List.mem_map.1 hd
    obtain ⟨ms, hms, hk⟩ := List.mem_flatten.1 hk
    obtain ⟨dep, -, hstands⟩ := exists_of_forall₂ hgroups hms
    refine List.mem_map_of_mem ?_
    rw [List.map_append, ← List.append_assoc]
    exact List.mem_append_left _ (mem_of_standsFor hstands hk)

/-- The steps of preparing a session: the arrays, then the library modules. -/
theorem prepare_steps {manifest : Manifest} {r : Except SessionError Session}
    (h : (prepare manifest).run w = .ok r w') :
    (∃ e, (prepareArrays manifest.arrays).run w = .ok (.error e) w' ∧ r = .error e) ∨
      ∃ named w₁, (prepareArrays manifest.arrays).run w = .ok (.ok named) w₁ ∧
        ((∃ e, (prepareModules named manifest.modules).run w₁ = .ok (.error e) w' ∧ r = .error e) ∨
          ∃ ms w₂, (prepareModules named manifest.modules).run w₁ = .ok (.ok ms) w₂ ∧
            r = .ok ⟨ms ++ named.flatMap (·.2), manifest.hot⟩ ∧ w'.graph = w₂.graph ∧
              w'.registry = w₂.registry) := by
  rcases run_of_bind h with ⟨e, harrays, rfl⟩ | ⟨named, w₁, harrays, h⟩
  · exact .inl ⟨e, harrays, rfl⟩
  refine .inr ⟨named, w₁, harrays, ?_⟩
  rcases run_of_bind h with ⟨e, hmodules, rfl⟩ | ⟨ms, w₂, hmodules, h⟩
  · exact .inl ⟨e, hmodules, rfl⟩
  · cases h
    exact .inr ⟨ms, w₂, hmodules, rfl, rfl, rfl⟩

/-- What was prepared one after the other is the session that the manifest asks for. -/
theorem built_of_makes {manifest : Manifest} {limit : Nat} {files : Files}
    (hordered : Manifest.Ordered (manifest.arrays.map (·.arrayName)) [] manifest.modules)
    (harrays : arrays.map (·.1) = manifest.arrays) (hmodules : modules.map (·.1) = manifest.modules)
    (hmakes : MakesArrays (.initial limit files) arrays w₁)
    (hmakes' : MakesModules arrays [] w₁ modules w₂) (hgraph : w'.graph = w₂.graph)
    (hregistry : w'.registry = w₂.registry) :
    Built manifest arrays modules
      ⟨modules.map (·.2) ++ (namedArrays arrays).flatMap (·.2), manifest.hot⟩ w' := by
  have hdeclares : ∀ a ∈ arrays, Declares w' a := by
    intro a ha
    obtain ⟨hnamed, hdeps, hentered⟩ := hmakes.declares a ha
    refine ⟨hnamed, hdeps, ?_⟩
    rwa [hregistry, hmakes'.registry]
  have hloaded : w'.graph.modules = arrays.flatMap (fun a => [a.2.2, a.2.1]) ++
      modules.map (·.2) := by
    rw [hgraph, hmakes'.graph, hmakes.graph]
    rfl
  exact {
    arrays_eq := harrays
    declares := hdeclares
    modules_eq := hmodules
    linked := hmakes'.linked
    distinct := by
      refine ⟨?_, hordered.nodup List.nodup_nil⟩
      rw [← harrays, List.map_map]
      exact hmakes.distinct
    graph := hloaded
    sorted := hgraph ▸ hmakes'.tidy.graph_sorted
    closed := closed_of_linked hdeclares hmakes'.linked hloaded
    deps := by
      rw [namedArrays, List.flatMap_map]
    hot := rfl }

end Session

/-- **A manifest that could be read is prepared as it says**, or an array or a module of it fails.
No dependency is missing, and of a session that comes of it the modules, their dependencies and
their order are known. -/
theorem Manifest.prepare_builds {fs : Files} {path content : String} {manifest : Manifest}
    (h : parse fs path content = .ok manifest) {files : Files} {r : Except SessionError Session}
    {w' : Workspace}
    (hrun : (Session.prepare manifest).run (.initial manifest.heapLimit files) = .ok r w') :
    (∀ name dep, r ≠ .error (.missing name dep)) ∧
      ∀ session, r = .ok session →
        ∃ arrays modules, Session.Built manifest arrays modules session w' := by
  have htidy := Workspace.tidy_initial manifest.heapLimit files
  have hordered := ordered_of_parse h
  rcases Session.prepare_steps hrun with ⟨e, hfails, rfl⟩ | ⟨named, w₁, hdeclares, hrest⟩
  · rcases Session.prepareArrays_outcome htidy hfails with ⟨_, hcases⟩ | ⟨_, hcases, -⟩
    · cases hcases
      exact ⟨fun _ _ => nofun, fun _ => nofun⟩
    · cases hcases
  rcases Session.prepareArrays_outcome htidy hdeclares with ⟨_, hcases⟩
    | ⟨arrays, hnamed, harrays, hmakes⟩
  · cases hcases
  cases hnamed
  have hordered' :
      Ordered (arrays.map (·.1.arrayName))
      (([] : List Session.MadeModule).map (·.1.name)) manifest.modules := by
    rw [← harrays, List.map_map] at hordered
    exact hordered
  have htable : Session.namedArrays arrays = Session.namedArrays arrays ++
      Session.namedModules [] :=
    (List.append_nil _).symm
  rw [htable] at hrest
  rcases hrest with ⟨e, hfails, rfl⟩ | ⟨ms, w₂, hloads, rfl, hgraph, hregistry⟩
  · rcases Session.prepareModules_outcome hmakes.tidy hordered' hfails with ⟨_, _, hcases⟩
      | ⟨_, hcases, -⟩
    · cases hcases
      exact ⟨fun _ _ => nofun, fun _ => nofun⟩
    · cases hcases
  · rcases Session.prepareModules_outcome hmakes.tidy hordered' hloads with
      ⟨_, _, hcases⟩ | ⟨modules, hms, hmodules, hmakes'⟩
    · cases hcases
    cases hms
    refine ⟨fun _ _ => nofun, fun session hsession => ?_⟩
    cases hsession
    rw [← htable]
    exact ⟨arrays, modules,
      Session.built_of_makes hordered harrays hmodules hmakes hmakes' hgraph hregistry⟩

/-! ## Two modules and an array -/

/-- A manifest that asks for modules and the array of bytes. -/
def byteManifest (modules : List ModuleEntry) : Manifest where
  path := "/p/manifest"
  root := "/p"
  hot := .standard
  heapLimit := standardHeapLimit
  modules := modules
  arrays := [⟨⟨.leaf (.sym "u8") ⟨0, 2⟩, ⟨"<type>", "u8"⟩⟩, by rfl⟩]

/-- Whether that is the manifest that was read. -/
def isByteManifest (expected : List ModuleEntry) : Except ManifestError Manifest → Bool
  | .ok ⟨path, root, hot, limit, modules, [⟨⟨.leaf (.sym name) s, origin⟩, _⟩]⟩ =>
    path = "/p/manifest" && root = "/p" && hot = .standard && limit = standardHeapLimit &&
      modules = expected && name = "u8" && s = ⟨0, 2⟩ && origin = ⟨"<type>", "u8"⟩
  | _ => false

theorem eq_of_isByteManifest {modules : List ModuleEntry} {r : Except ManifestError Manifest}
    (h : isByteManifest modules r = true) : r = .ok (byteManifest modules) := by
  unfold isByteManifest at h
  split at h
  · simp only [Bool.and_eq_true, decide_eq_true_eq] at h
    obtain ⟨⟨⟨⟨⟨⟨⟨rfl, rfl⟩, rfl⟩, rfl⟩, rfl⟩, rfl⟩, rfl⟩, rfl⟩ := h
    rfl
  · cases h

/-- Whether a session was prepared, and the modules of it are these, with these dependencies. -/
def preparesModules (expected : List (ModuleId × String × List ModuleId)) :
    EStateM.Result Halt Workspace (Except SessionError Session) → Bool
  | .ok (.ok session) _ => session.deps.map (fun m => (m.id, m.name, m.deps)) = expected
  | _ => false

theorem exists_of_preparesModules {expected : List (ModuleId × String × List ModuleId)}
    {r : EStateM.Result Halt Workspace (Except SessionError Session)}
    (h : preparesModules expected r = true) :
    ∃ session w', r = .ok (.ok session) w' ∧
      session.deps.map (fun m => (m.id, m.name, m.deps)) = expected := by
  unfold preparesModules at h
  split at h
  · exact ⟨_, _, rfl, of_decide_eq_true h⟩
  · cases h

/-- The files of a project of two library modules. -/
def pairProject : Files :=
  ⟨"/p", [], [], [(["one"], "(fun one () u64 1)"),
    (["two"], "(fun two ((bytes array_u8)) u64 (+ (one) (array_u8_length bytes)))")]⟩

/-- The text of its manifest, by which the second is compiled against the first and an array. -/
def pairText : String :=
  "modules=[[\"one\",\"one\"],[\"two\",\"two\",[\"one\",\"array_u8\"]]]\narrays=[[\"u8\"]]"

/-- The manifest. -/
def pairManifest : Manifest :=
  byteManifest [⟨"one", "/p/one", []⟩, ⟨"two", "/p/two", ["one", "array_u8"]⟩]

theorem parse_pair : Manifest.parse pairProject "/p/manifest" pairText = .ok pairManifest :=
  eq_of_isByteManifest (by decide +kernel)

/-- The modules of the session. Those of the array are the first that are made. -/
def pairModules : List (ModuleId × String × List ModuleId) :=
  [(⟨3⟩, "one", []), (⟨4⟩, "two", [⟨3⟩, ⟨2⟩, ⟨1⟩]), (⟨2⟩, "array_u8_ops", [⟨1⟩]),
    (⟨1⟩, "array_u8", [])]

open Blueprint in
set_option maxRecDepth 20000 in
theorem preparesModules_pair : preparesModules pairModules
    ((Session.prepare pairManifest).run (.initial pairManifest.heapLimit pairProject)) = true := by
  unfold Session.prepare Session.prepareArrays Work.declareArray Work.declareWrapper
    Container.wrapperUnit Container.arrayParts Container.instantiate Template.read
  -- the texts of the templates are given by their characters, which the kernel can scan
  rw [show readForms header = _ from readForms_eq (toList_pasting String.toList_ofList),
    show readForms operations = _ from readForms_eq (toList_pasting String.toList_ofList)]
  simp only [show readForms wrapper = _ from readForms_eq (toList_pasting String.toList_ofList)]
  decide +kernel

theorem Manifest.prepare_builds_pair : ∃ session w' arrays modules,
    parse pairProject "/p/manifest" pairText = .ok pairManifest ∧
      (Session.prepare pairManifest).run (.initial pairManifest.heapLimit pairProject) =
      .ok (.ok session) w' ∧
      Session.Built pairManifest arrays modules session w' ∧
      session.deps.map (fun m => (m.id, m.name, m.deps)) = pairModules := by
  obtain ⟨session, w', hrun, hmodules⟩ := exists_of_preparesModules preparesModules_pair
  obtain ⟨arrays, modules, hbuilt⟩ := (Manifest.prepare_builds parse_pair hrun).2 session rfl
  exact ⟨session, w', arrays, modules, parse_pair, hrun, hbuilt, hmodules⟩

end Kiln
