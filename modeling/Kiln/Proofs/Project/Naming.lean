import Kiln.Proofs.Project.Sessions
/-!
# Names of dependencies

What a library module depends on it calls by name: a module before it by the name of its entry, and
an array by a name that is made of the type of its elements. Where a manifest is read, the names of
entries are told apart from each other, but not from those of arrays, nor these from each other. So
a name is clear just if no two arrays and no array and entry have it (`Manifest.names_nodup_iff`).
Arrays that have one name cannot both be declared. An entry that is called like an array can be
loaded, but not depended on: as arrays are the first that are looked up, who lists its name is
compiled against the array (`Manifest.prepare_names`).
-/

namespace Kiln

open Blueprint Source

/-! ## Names of a manifest -/

namespace Manifest

/-- The names that a dependency can go by. -/
def names (m : Manifest) : List String := m.arrays.map (·.arrayName) ++ m.modules.map (·.name)

/-- **Names are clear just if those of arrays are, and no entry is called like an array.** -/
theorem names_nodup_iff {fs : Files} {path content : String} {manifest : Manifest}
    (h : parse fs path content = .ok manifest) : manifest.names.Nodup ↔
      (manifest.arrays.map (·.arrayName)).Nodup ∧
        ∀ entry ∈ manifest.modules, entry.name ∉ manifest.arrays.map (·.arrayName) := by
  have hmodules : (manifest.modules.map (·.name)).Nodup := (ordered_of_parse h).nodup List.nodup_nil
  rw [names, List.nodup_append']
  constructor
  · rintro ⟨harrays, -, hdisjoint⟩
    exact ⟨harrays, fun entry hentry harray => hdisjoint harray (List.mem_map_of_mem hentry)⟩
  · rintro ⟨harrays, hother⟩
    refine ⟨harrays, hmodules, fun name harray hname => ?_⟩
    obtain ⟨entry, hentry, rfl⟩ := List.mem_map.1 hname
    exact hother entry hentry harray

end Manifest

/-! ## What modules are compiled against -/

namespace Session

/-- What a name among the dependencies of an entry comes to, with arrays and modules that were made
before: the array of that name, and the module of that name just if there is no array. -/
structure Resolved (arrays : List MadeArray) (modules : List MadeModule) (name : String)
    (ms : List Module) : Prop where
  array : ∀ a ∈ arrays, a.1.arrayName = name → ms = [a.2.1, a.2.2]
  module :
  ∀ entry m, (entry, m) ∈ modules → entry.name = name →
    (ms = [m] ↔ ∀ a ∈ arrays, a.1.arrayName ≠ name)

variable {arrays : List MadeArray} {modules : List MadeModule}

/-- What a name stands for is what it comes to, where names are told apart. -/
theorem StandsFor.resolved {name : String} {ms : List Module} (h : StandsFor arrays modules name ms)
    (harrays : (arrays.map (·.1.arrayName)).Nodup) (hmodules : (modules.map (·.1.name)).Nodup) :
    Resolved arrays modules name ms := by
  cases h with
  | @array elem ops wrapper hmem hname =>
    refine ⟨fun a ha heq => ?_, fun entry m _ _ => ⟨fun hone => ?_, fun hnone => ?_⟩⟩
    · rw [← List.inj_on_of_nodup_map harrays hmem ha (hname.trans heq.symm)]
    · cases hone
    · exact absurd hname (hnone _ hmem)
  | @module entry m hnone hmem hname =>
    refine ⟨fun a ha heq => absurd heq (hnone a ha),
      fun entry' m' hmem' hname' => ⟨fun _ => hnone, fun _ => ?_⟩⟩
    rw [Prod.mk.inj (List.inj_on_of_nodup_map hmodules hmem hmem' (hname.trans hname'.symm)) |>.2]

/-- The modules that an entry is compiled against: what the names in it come to, one after the
other. -/
def Against (arrays : List MadeArray) (modules : List MadeModule) (entry : ModuleEntry)
    (deps : List Module) : Prop :=
  ∃ groups, List.Forall₂ (Resolved arrays modules) entry.deps groups ∧ deps = groups.flatten

/-- Arrays and library modules were made and loaded as the manifest says, the modules as far as they
are listed here. -/
structure Compiled (manifest : Manifest) (arrays : List MadeArray) (modules : List MadeModule)
    (w : Workspace) :
    Prop where
  arrays_eq : arrays.map (·.1) = manifest.arrays
  modules_in : modules.map (·.1) <+: manifest.modules
  graph : w.graph.modules = arrays.flatMap (fun a => [a.2.2, a.2.1]) ++ modules.map (·.2)
  against : ∀ front entry m back, modules = front ++ (entry, m) :: back →
    ∃ deps, Against arrays front entry deps ∧ m.deps = deps.map (·.id)

/-- How the preparation of a session ends, with what the library modules of the manifest are
compiled against. -/
inductive Ends (manifest : Manifest) (w' : Workspace) : Except SessionError Session → Prop
  /-- An array cannot be declared, so that no module is compiled. -/
  | array {w : Workspace} {e : SessionError}
      (hfails : (prepareArrays manifest.arrays).run w = .ok (.error e) w') :
      Ends manifest w' (.error e)
  /-- A module does not load, and those before it do. -/
  | module {arrays : List MadeArray} {modules : List MadeModule} {entry : ModuleEntry}
      {deps : List Module} {w : Workspace} (hmade : Compiled manifest arrays modules w)
      (hnext : modules.map (·.1) ++ [entry] <+: manifest.modules)
      (hagainst : Against arrays modules entry deps)
      (hload : Work.loadNamed entry.name entry.path deps w = .ok none w') :
      Ends manifest w' (.error (.module entry.name entry.path))
  /-- All modules load. -/
  | session {arrays : List MadeArray} {modules : List MadeModule}
      (hmade : Compiled manifest arrays modules w') (hall : modules.map (·.1) = manifest.modules) :
      Ends manifest w' (.ok ⟨modules.map (·.2) ++ (namedArrays arrays).flatMap (·.2), manifest.hot⟩)

/-- No two modules that were made have one name, if no two entries do. -/
theorem nodup_names {entries : List ModuleEntry} (hnodup : (entries.map (·.name)).Nodup)
    (hlisted : modules.map (·.1) <+: entries) : (modules.map (·.1.name)).Nodup := by
  have hnames := (hlisted.map (·.name)).sublist.nodup hnodup
  rwa [List.map_map] at hnames

/-- What names stand for is what an entry is compiled against. -/
theorem against_of_standsFor {entry : ModuleEntry} {groups : List (List Module)}
    (harrays : (arrays.map (·.1.arrayName)).Nodup) (hmodules : (modules.map (·.1.name)).Nodup)
    (h : List.Forall₂ (StandsFor arrays modules) entry.deps groups) :
    Against arrays modules entry groups.flatten :=
  ⟨groups, h.imp fun _ _ hstands => hstands.resolved harrays hmodules, rfl⟩

theorem compiled_of_makes {manifest : Manifest} {limit : Nat} {files : Files} {w w' : Workspace}
    (hnodup : (manifest.modules.map (·.name)).Nodup) (harrays : arrays.map (·.1) = manifest.arrays)
    (hmakes : MakesArrays (.initial limit files) arrays w)
    (hlisted : modules.map (·.1) <+: manifest.modules)
    (hmakes' : MakesModules arrays [] w modules w') : Compiled manifest arrays modules w' := by
  refine ⟨harrays, hlisted, ?_, fun front entry m back heq => ?_⟩
  · rw [hmakes'.graph, hmakes.graph]
    rfl
  · obtain ⟨-, groups, hgroups, hdeps⟩ := hmakes'.linked front entry m back heq
    have hfront : front.map (·.1) <+: manifest.modules := by
      have hin : front <+: modules := heq ▸ List.prefix_append _ _
      exact (hin.map _).trans hlisted
    exact ⟨groups.flatten, against_of_standsFor hmakes.distinct (nodup_names hnodup hfront) hgroups,
      hdeps⟩

/-- **However the preparation ends**, what modules are compiled against is known. -/
theorem ends_of_prepare {manifest : Manifest} {limit : Nat} {files : Files}
    (hordered : Manifest.Ordered (manifest.arrays.map (·.arrayName)) [] manifest.modules)
    {r : Except SessionError Session} {w' : Workspace}
    (h : (prepare manifest).run (.initial limit files) = .ok r w') : Ends manifest w' r := by
  have htidy := Workspace.tidy_initial limit files
  have hnodup : (manifest.modules.map (·.name)).Nodup := hordered.nodup List.nodup_nil
  -- the arrays are declared first
  rcases prepare_steps h with ⟨e, hfails, rfl⟩ | ⟨named, w₁, hdeclares, hrest⟩
  · exact .array hfails
  rcases prepareArrays_outcome htidy hdeclares with ⟨_, hcases⟩ | ⟨arrays, hnamed, harrays, hmakes⟩
  · cases hcases
  cases hnamed
  -- and the table that the modules start from has them alone
  have hordered' :
      Manifest.Ordered (arrays.map (·.1.arrayName))
      (([] : List MadeModule).map (·.1.name)) manifest.modules := by
    rw [← harrays, List.map_map] at hordered
    exact hordered
  rw [← List.append_nil (namedArrays arrays)] at hrest
  rcases hrest with ⟨e, hfails, rfl⟩ | ⟨ms, w₂, hloads, rfl, hgraph, -⟩
  · rcases prepareModules_loads hmakes.tidy hordered' hfails with ⟨modules, entry, hfailed, hcases⟩
      | ⟨_, hcases, -⟩
    · cases hcases
      obtain ⟨groups, w₂, hmakes', hgroups, hload⟩ := hfailed.loads
      have hlisted := (List.prefix_append _ _).trans hfailed.entries
      have hagainst := against_of_standsFor hmakes.distinct (nodup_names hnodup hlisted) hgroups
      exact .module (compiled_of_makes hnodup harrays hmakes hlisted hmakes') hfailed.entries
        hagainst hload
    · cases hcases
  · rcases prepareModules_loads hmakes.tidy hordered' hloads with ⟨_, _, -, hcases⟩
      | ⟨modules, hms, hmodules, hmakes'⟩
    · cases hcases
    cases hms
    rw [List.append_nil]
    have hlisted : modules.map (·.1) <+: manifest.modules := hmodules ▸ List.prefix_rfl
    obtain ⟨harrays, hlisted, hloaded, hagainst⟩ :=
      compiled_of_makes hnodup harrays hmakes hlisted hmakes'
    exact .session ⟨harrays, hlisted, hgraph ▸ hloaded, hagainst⟩ hmodules

end Session

/-- **Names of a manifest that could be read are clear just if no two arrays and no array and entry
have one**, and a module that lists the name of an entry before it is compiled against the module of
that entry just if no array has the name: otherwise against the array. -/
theorem Manifest.prepare_names {fs : Files} {path content : String} {manifest : Manifest}
    (h : parse fs path content = .ok manifest) :
    (manifest.names.Nodup ↔ (manifest.arrays.map (·.arrayName)).Nodup ∧
        ∀ entry ∈ manifest.modules, entry.name ∉ manifest.arrays.map (·.arrayName)) ∧
      ∀ {files : Files} {r : Except SessionError Session} {w' : Workspace},
        (Session.prepare manifest).run (.initial manifest.heapLimit files) = .ok r w' →
        Session.Ends manifest w' r :=
  ⟨names_nodup_iff h, fun hrun => Session.ends_of_prepare (ordered_of_parse h) hrun⟩

/-! ## A module that is called like an array -/

/-- The text of a manifest by which a module depends on the one before it, and that is called like
an array. -/
def namesakeText : String :=
  "modules=[[\"array_u8\",\"one\"],[\"two\",\"two\",[\"array_u8\"]]]\narrays=[[\"u8\"]]"

/-- The files of its project. -/
def namesakeProject : Files :=
  ⟨"/p", [], [], [(["one"], "(fun one () i64 1)"), (["two"], "(fun two () i64 2)")]⟩

/-- The manifest. -/
def namesake : Manifest :=
  byteManifest [⟨"array_u8", "/p/one", []⟩, ⟨"two", "/p/two", ["array_u8"]⟩]

theorem parse_namesake : Manifest.parse namesakeProject "/p/manifest" namesakeText = .ok namesake :=
  eq_of_isByteManifest (by decide +kernel)

/-- The modules of the session, of which the second is compiled against the array. -/
def namesakeModules : List (ModuleId × String × List ModuleId) :=
  [(⟨3⟩, "array_u8", []), (⟨4⟩, "two", [⟨2⟩, ⟨1⟩]), (⟨2⟩, "array_u8_ops", [⟨1⟩]),
    (⟨1⟩, "array_u8", [])]

set_option maxRecDepth 20000 in
theorem preparesModules_namesake : preparesModules namesakeModules
    ((Session.prepare namesake).run (.initial namesake.heapLimit namesakeProject)) = true := by
  unfold Session.prepare Session.prepareArrays Work.declareArray Work.declareWrapper
    Container.wrapperUnit Container.arrayParts Container.instantiate Template.read
  -- the texts of the templates are given by their characters, which the kernel can scan
  rw [show readForms header = _ from readForms_eq (toList_pasting String.toList_ofList),
    show readForms operations = _ from readForms_eq (toList_pasting String.toList_ofList)]
  simp only [show readForms wrapper = _ from readForms_eq (toList_pasting String.toList_ofList)]
  decide +kernel

/-- What the second module is compiled against is known, whether or not names are clear, and here
they are not. -/
theorem Manifest.prepare_names_namesake : ∃ session w',
    parse namesakeProject "/p/manifest" namesakeText = .ok namesake ∧
      (Session.prepare namesake).run (.initial namesake.heapLimit namesakeProject) =
      .ok (.ok session) w' ∧
      ¬namesake.names.Nodup ∧ Session.Ends namesake w' (.ok session) := by
  obtain ⟨session, w', hrun, -⟩ := exists_of_preparesModules preparesModules_namesake
  obtain ⟨hnodup, hends⟩ := Manifest.prepare_names parse_namesake
  refine ⟨session, w', parse_namesake, hrun, fun hnames => ?_, hends hrun⟩
  exact (hnodup.1 hnames).2 _ List.mem_cons_self (by decide +kernel)

/-- **A module is compiled against an array that is called like a module before it**, and not
against that module. The module of the first entry is the third there is, and that of the second
depends on the array alone. -/
theorem Manifest.prepare_names_misleading :
    parse namesakeProject "/p/manifest" namesakeText = .ok namesake ∧
    namesake.modules.map (fun e => (e.name, e.deps)) = [("array_u8", []), ("two", ["array_u8"])] ∧
    ¬namesake.names.Nodup ∧ ∃ session w',
      (Session.prepare namesake).run (.initial namesake.heapLimit namesakeProject) =
        .ok (.ok session) w' ∧
        session.deps.map (fun m => (m.id, m.name, m.deps)) =
          [(⟨3⟩, "array_u8", []), (⟨4⟩, "two", [⟨2⟩, ⟨1⟩]), (⟨2⟩, "array_u8_ops", [⟨1⟩]),
            (⟨1⟩, "array_u8", [])] :=
  ⟨parse_namesake, rfl, by decide +kernel, exists_of_preparesModules preparesModules_namesake⟩

end Kiln
