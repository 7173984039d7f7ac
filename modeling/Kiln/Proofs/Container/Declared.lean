import Kiln.Proofs.Container.Trees
import Kiln.Proofs.Template.Filling
import Kiln.Proofs.Workspace.Outcomes
/-!
# What may come of declaring a container

The name of an array is a symbol whatever its elements are, so its templates always have instances
(`exists_arrayParts`). A declaration is therefore refused for the sake of its name just if the
registry has that name, and comes to one of three ends: the name is taken, something else is wrong
and the registry is what it was, or the registry has the new modules (`declareWrapper_outcome`,
`declareArray_outcome`).
-/

namespace Kiln

/-! ## The names of arrays -/

namespace TypeExpr

/-- A name that is spelled with what a name may hold, behind a letter, is a name. -/
theorem isFillingName_of_letter {c : Char} {cs : List Char} (hletter : c.isDigit = false)
    (hminus : c ≠ '-') (h : ∀ d ∈ c :: cs, isSymbolChar d = true ∧ d ≠ '$') :
    isFillingName (String.ofList (c :: cs)) = true := by
  have hunsigned : unsigned (c :: cs) = c :: cs := by
    unfold unsigned
    split
    · rename_i heq
      exact absurd (List.cons.inj heq).1 hminus
    · rfl
  have hnumber : isNumber (c :: cs) = false := by
    rw [isNumber, hunsigned, List.all_cons, hletter, Bool.false_and, Bool.and_false]
  have hsymbol : isSymbol (String.ofList (c :: cs)) = true := by
    rw [isSymbol, String.toList_ofList, hnumber, List.all_eq_true.2 fun d hd => (h d hd).1]
    simp [hletter]
  rw [Template.isFillingName_iff, String.toList_ofList]
  exact ⟨hsymbol, fun hmem => (h '$' hmem).2 rfl⟩

/-- What was checked character by character can be part of a name. -/
theorem plain_of_all {cs : List Char} (h : (cs.all fun c => isSymbolChar c && c != '$') = true) :
    ∀ c ∈ cs, isSymbolChar c = true ∧ c ≠ '$' := by
  intro c hc
  have hplain := List.all_eq_true.1 h c hc
  rwa [Bool.and_eq_true, bne_iff_ne] at hplain

/-- What a type is spelled with can be part of a name. -/
theorem symbols_mangleTree : ∀ {t : Tree}, checkType t = .ok () →
    ∀ c ∈ (mangleTree t).toList, isSymbolChar c = true ∧ c ≠ '$'
  | .leaf (.sym name) s, h => by
    rw [checkType] at h
    split at h
    · rename_i hname
      obtain ⟨hsymbol, hplain⟩ := Template.isFillingName_iff.1 hname
      rw [isSymbol, Bool.and_eq_true, Bool.and_eq_true, Bool.and_eq_true] at hsymbol
      exact fun c hc => ⟨List.all_eq_true.1 hsymbol.1.1.2 c hc, fun heq => hplain (heq ▸ hc)⟩
    · cases h
  | .leaf (.int _) _, h | .leaf (.bool _) _, h | .leaf (.str _) _, h => by cases h
  | .node [] _, h | .node [_] _, h | .node (_ :: _ :: _ :: _) _, h => by cases h
  | .node [head, inner] s, h => by
    rw [checkType] at h
    split at h
    · rename_i hhead
      have hinner := symbols_mangleTree h
      have hword : mangleTree head = "ptr" ∨ mangleTree head = "seq" := by
        rcases head with ⟨_ | _ | _ | name, _⟩ | _ <;> simp_all [Tree.symbol?, mangleTree]
      have hchars : ∀ c ∈ (mangleTree head).toList ++ ['_'], isSymbolChar c = true ∧ c ≠ '$' := by
        rcases hword with hword | hword
        · rw [hword]
          exact plain_of_all (by decide)
        · rw [hword]
          exact plain_of_all (by decide)
      have hjoined : mangleTree (.node [head, inner] s) = mangleTree head ++ "_" ++
          mangleTree inner := rfl
      rw [hjoined, String.toList_append, String.toList_append]
      exact fun c hc => (List.mem_append.1 hc).elim (hchars c) (hinner c)
    · cases h

/-- What is put behind the name of an array can be part of a name, and then so is the whole. -/
theorem isFillingName_append (elem : TypeExpr) (suffix : String)
    (hsuffix : ∀ c ∈ suffix.toList, isSymbolChar c = true ∧ c ≠ '$') :
    isFillingName (elem.arrayName ++ suffix) = true := by
  have hprefix : "array_".toList = 'a' :: ['r', 'r', 'a', 'y', '_'] := by decide
  have hfixed : ∀ c ∈ 'a' :: ['r', 'r', 'a', 'y', '_'], isSymbolChar c = true ∧ c ≠ '$' :=
    plain_of_all (by decide)
  have hname : (elem.arrayName ++ suffix).toList =
      'a' :: (['r', 'r', 'a', 'y', '_'] ++ elem.mangled.toList ++ suffix.toList) := by
    rw [arrayName, String.toList_append, String.toList_append, hprefix, List.cons_append,
      List.cons_append]
  rw [← String.ofList_toList (s := elem.arrayName ++ suffix), hname]
  refine isFillingName_of_letter (by decide) (by decide) ?_
  rw [← List.cons_append, ← List.cons_append, List.forall_mem_append, List.forall_mem_append]
  exact ⟨⟨hfixed, symbols_mangleTree elem.spells⟩, hsuffix⟩

/-- **The name of an array is a symbol that holds no hole**, whatever its elements are. -/
theorem isFillingName_arrayName (elem : TypeExpr) : isFillingName elem.arrayName = true := by
  have hempty := isFillingName_append elem "" fun c hc => absurd hc List.not_mem_nil
  rwa [String.append_empty] at hempty

end TypeExpr

namespace Container

open Blueprint

variable {name text : String} {body : Tree}

/-- Bindings fit a template whose holes are of their kinds, if the names among them can fill
holes. -/
theorem fits_of_kinds {template : Template} {b : Bindings}
    (hkinds : ∀ hole, template.holes.find? hole = (b.find? hole).map Binding.kind)
    (hnames : ∀ hole value, b.find? hole = some (.ident value) → isFillingName value = true) :
    template.Fits b := by
  refine ⟨fun hole => ?_, fun hole filling hfilling => ?_, fun hole value hvalue => ?_⟩
  · rw [NameMap.contains, NameMap.contains, hkinds, Option.isSome_map]
  · rw [hkinds, hfilling]
    rfl
  · exact Template.isFillingName_iff.1 (hnames hole value hvalue)

theorem fits_arrayBindings (elem : TypeExpr) {template : Template}
    (hholes : template.holes = .ofList Blueprint.arrayHoles)
    (hname : isFillingName name = true) : template.Fits (arrayBindings name elem) := by
  have hfind : ∀ hole, (arrayBindings name elem).find? hole =
      if hole = "T" then some (.type elem)
      else if hole = "a" then some (.ident name) else none := by
    simp [arrayBindings, NameMap.ofList]
  refine fits_of_kinds (fun hole => ?_) fun hole value hvalue => ?_
  · rw [hfind, hholes]
    simp only [Blueprint.arrayHoles, NameMap.ofList, List.foldl_cons, List.foldl_nil,
      NameMap.find?_insert, NameMap.find?_empty]
    split
    · rfl
    · split <;> rfl
  · rw [hfind] at hvalue
    split at hvalue
    · cases hvalue
    · split at hvalue
      · cases hvalue
        exact hname
      · cases hvalue

/-- A template has an instance for bindings that fit its holes. -/
theorem exists_instance {holes : List (String × HoleKind)} (h : Template.Reads name text holes body)
    {es : List (String × Binding)}
    (hfits : ∀ template : Template, template.holes = .ofList holes → template.Fits (.ofList es)) :
    ∃ f, instantiate name text (.ofList es) = .ok f := by
  obtain ⟨template, hread, hholes, -⟩ := h
  obtain ⟨f, hf⟩ := Template.exists_instance_iff.2 (hfits template hholes)
  refine ⟨f, ?_⟩
  rw [instantiate, hread]
  exact mapError_of_ok hf _

/-- **The templates of an array have instances**, whatever its elements are. -/
theorem exists_arrayParts (elem : TypeExpr) : ∃ header operations,
    arrayParts elem.arrayName elem = .ok (header, operations) := by
  have hfits : ∀ template : Template, template.holes = .ofList Blueprint.arrayHoles →
      template.Fits (arrayBindings elem.arrayName elem) :=
    fun _ hholes => fits_arrayBindings elem hholes elem.isFillingName_arrayName
  obtain ⟨header, hheader⟩ := exists_instance reads_header hfits
  obtain ⟨operations, hoperations⟩ := exists_instance reads_operations hfits
  refine ⟨header, operations, ?_⟩
  unfold arrayParts
  exact (bind_of_ok hheader _).trans (bind_of_ok hoperations _)

end Container

/-! ## Wrappers -/

namespace Workspace

/-- Nothing changed that names a module. At most there are modules more. -/
structure Spares (w w' : Workspace) : Prop where
  library : w.library.Grows w'.library
  graph : w'.graph = w.graph
  registry : w'.registry = w.registry

/-- The module is new, and is the wrapper of this name from now on. -/
structure GainsWrapper (w : Workspace) (name : String) (m : Module) (w' : Workspace) : Prop where
  free : w.registry.wrappers.find? name = none
  id : m.id = w.library.nextId
  named : m.name = name
  deps : m.deps = []
  library : w'.library = w.library.push m
  graph : w'.graph = w.graph
  registry : w'.registry = { w.registry with wrappers := w.registry.wrappers.insert name m.id }

/-- The modules are new, and are the operations and the wrapper of the array of this name from now
on. -/
structure GainsArray (w : Workspace) (name : String) (m wrapper : Module)
    (w' : Workspace) : Prop where
  free : w.registry.wrappers.find? name = none ∧ w.registry.arrays.find? name = none
  wrapper_id : wrapper.id = w.library.nextId
  id : m.id = (w.library.push wrapper).nextId
  named : wrapper.name = name ∧ m.name = name ++ "_ops"
  wrapper_deps : wrapper.deps = []
  deps : m.deps = [wrapper.id]
  library : w'.library = (w.library.push wrapper).push m
  graph : w'.graph = w.graph
  registry : w'.registry =
    ⟨w.registry.wrappers.insert name wrapper.id, w.registry.arrays.insert name m.id⟩

theorem Spares.refl (w : Workspace) : w.Spares w := ⟨.refl _, rfl, rfl⟩

end Workspace

namespace Work

variable {w w' : Workspace}

/-- Compiling takes in no module and none away. -/
theorem spares_of_compile {unit : SourceUnit} {deps : List Module} {r : Except CompileError Module}
    (h : (compile unit deps).run w = .ok r w') : w.Spares w' := by
  have helsewhere := elsewhere_of_compile h
  refine ⟨?_, by rw [helsewhere], by rw [helsewhere]⟩
  rcases compile_outcome h with ⟨_, -, rfl⟩ | ⟨lowered, origin, r', -, hlibrary, -, -⟩
  · exact .refl _
  · rw [hlibrary]
    exact Library.grows_push _ _

theorem compileGenerated_outcome {unit : SourceUnit} {deps : List Module}
    {r : Except ContainerError Module} (h : (compileGenerated unit deps).run w = .ok r w') :
    (∃ e, r = .error (.compile e) ∧ (compile unit deps).run w = .ok (.error e) w') ∨
      ∃ m, r = .ok m ∧ (compile unit deps).run w = .ok (.ok m) w' := by
  obtain ⟨result, w₁, hcompile, h⟩ := ok_of_run_bind h
  cases h
  rcases result with e | m
  · exact .inl ⟨e, rfl, hcompile⟩
  · exact .inr ⟨m, rfl, hcompile⟩

/-- What cannot be made into the unit of a wrapper is not refused for its name. -/
theorem wrapperUnit_ne_duplicate {name : String} {inner : Fragment} {e : ContainerError}
    (h : Container.wrapperUnit name inner = .error e) (other : String) : e ≠ .duplicate other := by
  rcases error_of_bind h with hpayload | ⟨⟨definition, named⟩, -, h⟩
  · unfold Container.payload at hpayload
    repeat' split at hpayload
    all_goals cases hpayload
    nofun
  rcases error_of_bind h with htype | ⟨type, -, h⟩
  · obtain ⟨_, -, rfl⟩ := error_of_mapError htype
    nofun
  rcases error_of_bind h with hbody | ⟨body, -, h⟩
  · rcases error_of_bind hbody with hread | ⟨template, -, hfill⟩
    · obtain ⟨_, -, rfl⟩ := error_of_mapError hread
      nofun
    · obtain ⟨_, -, rfl⟩ := error_of_mapError hfill
      nofun
  · cases h

theorem name_of_wrapperUnit {name : String} {inner : Fragment} {unit : SourceUnit} {type : TypeExpr}
    (h : Container.wrapperUnit name inner = .ok (unit, type)) : unit.name = name := by
  obtain ⟨⟨definition, named⟩, -, h⟩ := ok_of_bind h
  obtain ⟨_, -, h⟩ := ok_of_bind h
  obtain ⟨body, -, h⟩ := ok_of_bind h
  cases h
  rfl

/-- **A wrapper is refused for its name just if that is taken.** If it cannot be declared nothing
changes that names a module, and otherwise its module is new and has its name. -/
theorem declareWrapper_outcome {name : String} {inner : Fragment} {r : Except ContainerError Module}
    (h : (declareWrapper name inner).run w = .ok r w') :
    (w.registry.wrappers.contains name = true ∧ r = .error (.duplicate name) ∧ w' = w) ∨
      (w.registry.wrappers.contains name = false ∧
        ((∃ e, r = .error e ∧ (∀ other, e ≠ .duplicate other) ∧ w.Spares w') ∨
          ∃ m, r = .ok m ∧ w.GainsWrapper name m w')) := by
  rcases run_of_bind h with ⟨_, hget, -⟩ | ⟨_, _, hget, h⟩
  · cases hget
  cases hget
  split at h
  · rename_i htaken
    cases h
    exact .inl ⟨htaken, rfl, rfl⟩
  rename_i hfree
  rw [Bool.not_eq_true] at hfree
  refine .inr ⟨hfree, ?_⟩
  rcases hunit : Container.wrapperUnit name inner with e | ⟨unit, type⟩
  · rw [hunit] at h
    cases h
    exact .inl ⟨e, rfl, wrapperUnit_ne_duplicate hunit, .refl w⟩
  rw [hunit] at h
  rcases run_of_bind h with ⟨_, hgiven, -⟩ | ⟨_, _, hgiven, h⟩
  · cases hgiven
  cases hgiven
  rcases run_of_bind h with ⟨e, hcompile, rfl⟩ | ⟨m, w₁, hcompile, h⟩
  · rcases compileGenerated_outcome hcompile with ⟨_, hcases, hrun⟩ | ⟨_, hcases, -⟩
    · cases hcases
      exact .inl ⟨_, rfl, fun _ => nofun, spares_of_compile hrun⟩
    · cases hcases
  · rcases compileGenerated_outcome hcompile with ⟨_, hcases, -⟩ | ⟨m', hcases, hcompile⟩
    · cases hcases
    cases hcases
    cases h
    obtain ⟨hid, hdeps, hlibrary⟩ := module_of_compile hcompile
    obtain ⟨-, hgraph, hregistry⟩ := spares_of_compile hcompile
    refine .inr ⟨m, rfl, ?_⟩
    exact {
      free := NameMap.contains_eq_false_iff.1 hfree
      id := hid
      named := (name_of_compile hcompile).trans (name_of_wrapperUnit hunit)
      deps := hdeps
      library := hlibrary
      graph := hgraph
      registry := congrArg
        (fun r : Registry => { r with wrappers := r.wrappers.insert name m.id }) hregistry }

/-- A wrapper that is declared is entered in the registry. -/
theorem gains_of_declareWrapper {name : String} {inner : Fragment} {m : Module}
    (h : (declareWrapper name inner).run w = .ok (.ok m) w') : w.GainsWrapper name m w' := by
  rcases declareWrapper_outcome h with ⟨-, hcases, -⟩ | ⟨-, ⟨_, hcases, -⟩ | ⟨_, hcases, hgains⟩⟩
  · cases hcases
  · cases hcases
  · cases hcases
    exact hgains

/-- **What could not be declared leaves no trace where names are looked for.** -/
theorem spares_of_declareWrapper {name : String} {inner : Fragment} {e : ContainerError}
    (h : (declareWrapper name inner).run w = .ok (.error e) w') : w.Spares w' := by
  rcases declareWrapper_outcome h with ⟨-, -, rfl⟩ | ⟨-, ⟨_, -, -, hspares⟩ | ⟨_, hcases, -⟩⟩
  · exact .refl _
  · exact hspares
  · cases hcases

/-! ## Arrays -/

/-- An attempt ended as it did by itself, or with an error that was handled. -/
theorem run_of_attempt {α ε : Type} {x : ExceptT ε Work α} {handler : ε → ExceptT ε Work α}
    {r : Except ε α} (h : (tryCatch x handler).run w = .ok r w') :
    (∃ a, r = .ok a ∧ x.run w = .ok (.ok a) w') ∨
      ∃ e w₁, x.run w = .ok (.error e) w₁ ∧ (handler e).run w₁ = .ok r w' := by
  rw [ExceptT.run_tryCatch] at h
  obtain ⟨result, w₁, hx, h⟩ := ok_of_run_bind h
  rcases result with e | a
  · exact .inr ⟨e, w₁, hx, h⟩
  · cases h
    exact .inl ⟨a, rfl, hx⟩

/-- **An array is refused for its name just if that is taken**, be it by an array or by a wrapper.
If it cannot be declared nothing changes that names a module, its wrapper included, and otherwise
both its modules are new and have its name. -/
theorem declareArray_outcome {elem : TypeExpr} {r : Except ContainerError (Module × Module)}
    (h : (declareArray elem).run w = .ok r w') :
    ((w.registry.arrays.contains elem.arrayName = true ∨
      w.registry.wrappers.contains elem.arrayName = true) ∧
        r = .error (.duplicate elem.arrayName) ∧ w' = w) ∨
      (w.registry.arrays.contains elem.arrayName = false ∧
        w.registry.wrappers.contains elem.arrayName = false ∧
        ((∃ e, r = .error e ∧ (∀ other, e ≠ .duplicate other) ∧ w.Spares w') ∨
          ∃ m wrapper, r = .ok (m, wrapper) ∧ w.GainsArray elem.arrayName m wrapper w')) := by
  rcases run_of_bind h with ⟨_, hget, -⟩ | ⟨_, _, hget, h⟩
  · cases hget
  cases hget
  dsimp only at h
  split at h
  · rename_i htaken
    cases h
    exact .inl ⟨.inl htaken, rfl, rfl⟩
  rename_i hfree
  rw [Bool.not_eq_true] at hfree
  -- the templates always have instances, so nothing is refused before the name of the wrapper is
  -- looked up
  obtain ⟨header, operations, hparts⟩ := Container.exists_arrayParts elem
  rw [hparts] at h
  rcases run_of_bind h with ⟨_, hgiven, -⟩ | ⟨_, _, hgiven, h⟩
  · cases hgiven
  cases hgiven
  rcases run_of_bind h with ⟨e, hwrapper, rfl⟩ | ⟨wrapper, w₁, hwrapper, h⟩
  · rcases declareWrapper_outcome hwrapper with ⟨htaken, hcases, rfl⟩ |
      ⟨hnew, ⟨_, hcases, hother, hspares⟩ | ⟨_, hcases, -⟩⟩
    · cases hcases
      exact .inl ⟨.inr htaken, rfl, rfl⟩
    · cases hcases
      exact .inr ⟨hfree, hnew, .inl ⟨e, rfl, hother, hspares⟩⟩
    · cases hcases
  have hgains := gains_of_declareWrapper hwrapper
  have hnew : w.registry.wrappers.contains elem.arrayName = false :=
    NameMap.contains_eq_false_iff.2 hgains.free
  refine .inr ⟨hfree, hnew, ?_⟩
  -- from here on there is a wrapper, which stays only if the operations compile
  rcases run_of_bind h with ⟨e, hcaught, rfl⟩ | ⟨m, w₂, hcaught, h⟩
  · rcases run_of_attempt hcaught with ⟨_, hcases, -⟩ | ⟨e', w₂, hfails, h⟩
    · cases hcases
    rcases compileGenerated_outcome hfails with ⟨_, hcases, hrun⟩ | ⟨_, hcases, -⟩
    · cases hcases
      cases h
      obtain ⟨hgrows, hgraph, hregistry⟩ := spares_of_compile hrun
      refine .inl ⟨_, rfl, fun _ => nofun, ?_, hgraph.trans hgains.graph, ?_⟩
      · rw [hgains.library] at hgrows
        exact (Library.grows_push _ _).trans hgrows
      · -- the wrapper was entered, and is taken out again
        show { w₂.registry with wrappers := w₂.registry.wrappers.erase elem.arrayName } = w.registry
        rw [hregistry, hgains.registry]
        exact congrArg (fun wrappers => (⟨wrappers, w.registry.arrays⟩ : Registry))
          (NameMap.erase_insert hgains.free)
    · cases hcases
  · rcases run_of_attempt hcaught with ⟨_, hcases, hgenerated⟩ | ⟨e, _, -, h⟩
    · cases hcases
      cases h
      rcases compileGenerated_outcome hgenerated with ⟨_, hcases, -⟩ | ⟨_, hcases, hrun⟩
      · cases hcases
      cases hcases
      obtain ⟨hid, hdeps, hlibrary⟩ := module_of_compile hrun
      obtain ⟨-, hgraph, hregistry⟩ := spares_of_compile hrun
      rw [hgains.library] at hid hlibrary
      refine .inr ⟨m, wrapper, rfl, ?_⟩
      exact {
        free := ⟨hgains.free, NameMap.contains_eq_false_iff.1 hfree⟩
        wrapper_id := hgains.id
        id := hid
        named := ⟨hgains.named, name_of_compile hrun⟩
        wrapper_deps := hgains.deps
        deps := hdeps
        library := hlibrary
        graph := hgraph.trans hgains.graph
        registry :=
          congrArg (fun r : Registry => { r with arrays := r.arrays.insert elem.arrayName m.id })
            (hregistry.trans hgains.registry) }
    · cases h

/-- An array that is declared is entered with its wrapper. -/
theorem gains_of_declareArray {elem : TypeExpr} {m wrapper : Module}
    (h : (declareArray elem).run w = .ok (.ok (m, wrapper)) w') :
    w.GainsArray elem.arrayName m wrapper w' := by
  rcases declareArray_outcome h with ⟨-, hcases, -⟩
    | ⟨-, -, ⟨_, hcases, -⟩ | ⟨_, _, hcases, hgains⟩⟩
  · cases hcases
  · cases hcases
  · cases hcases
    exact hgains

theorem spares_of_declareArray {elem : TypeExpr} {e : ContainerError}
    (h : (declareArray elem).run w = .ok (.error e) w') : w.Spares w' := by
  rcases declareArray_outcome h with ⟨-, -, rfl⟩ | ⟨-, -, ⟨_, -, -, hspares⟩ | ⟨_, _, hcases, -⟩⟩
  · exact .refl _
  · exact hspares
  · cases hcases

/-! ## Names that are taken -/

theorem declareWrapper_taken {name : String} (inner : Fragment)
    (h : w.registry.wrappers.contains name = true) :
    (declareWrapper name inner).run w = .ok (.error (.duplicate name)) w := by
  have hrun : (declareWrapper name inner).run w = _ := run_bind_ok rfl
  rw [hrun, if_pos h]
  rfl

theorem declareArray_taken {elem : TypeExpr} (h : w.registry.arrays.contains elem.arrayName = true ∨
    w.registry.wrappers.contains elem.arrayName = true) :
    (declareArray elem).run w = .ok (.error (.duplicate elem.arrayName)) w := by
  have hrun : (declareArray elem).run w = _ := run_bind_ok rfl
  rw [hrun]
  dsimp only
  split
  · rfl
  · rename_i hfree
    obtain ⟨header, operations, hparts⟩ := Container.exists_arrayParts elem
    rw [hparts]
    exact (run_bind_ok (run_ofExcept _)).trans
      (run_bind_error (declareWrapper_taken header (h.resolve_left hfree)))

/-- **A wrapper is a duplicate just if there is a wrapper of its name.** -/
theorem declareWrapper_duplicate_iff {name : String} {inner : Fragment} :
    (∃ other w', (declareWrapper name inner).run w = .ok (.error (.duplicate other)) w') ↔
      w.registry.wrappers.contains name = true := by
  refine ⟨fun ⟨other, w', h⟩ => ?_, fun h => ⟨_, _, declareWrapper_taken inner h⟩⟩
  rcases declareWrapper_outcome h with ⟨htaken, -⟩ | ⟨-, ⟨_, hcases, hother, -⟩ | ⟨_, hcases, -⟩⟩
  · exact htaken
  · cases hcases
    exact absurd rfl (hother other)
  · cases hcases

/-- **An array is a duplicate just if there is an array or a wrapper of its name.** -/
theorem declareArray_duplicate_iff {elem : TypeExpr} :
    (∃ other w', (declareArray elem).run w = .ok (.error (.duplicate other)) w') ↔
      (w.registry.arrays.contains elem.arrayName = true ∨
        w.registry.wrappers.contains elem.arrayName = true) := by
  refine ⟨fun ⟨other, w', h⟩ => ?_, fun h => ⟨_, _, declareArray_taken h⟩⟩
  rcases declareArray_outcome h with ⟨htaken, -⟩
    | ⟨-, -, ⟨_, hcases, hother, -⟩ | ⟨_, _, hcases, -⟩⟩
  · exact htaken
  · cases hcases
    exact absurd rfl (hother other)
  · cases hcases

end Work

end Kiln
