import Kiln.Proofs.Container.Accepted
/-!
# Which arrays can be declared

The templates of an array have instances that are its two units, spans apart, and units that are the
same but for spans are lowered to the same (`lowerUnit_of_respan`). The units are accepted for every
type of elements that is spelled in full and that memory can hold, so such an array is declared
wherever its name is new (`Work.declareArray_run`). No others are: a header is laid out before its
name could be taken for a type, and the names of a wrapper's structs are all longer than the type
they hold is written (`Work.spells_of_declareArray`).
-/

namespace Kiln

open Blueprint

/-- The tree spells the type of elements that an array can have: it is made with `ptr` and `seq`
from a word that names a type by itself, and is neither a string nor a sequence itself. -/
def Tree.Declarable (tree : Tree) : Prop :=
  ∃ t, tree.Spells t ∧ t ≠ .str ∧ ∀ u, t ≠ .seq u

/-- An array of these elements is declared, in some workspace. -/
def TypeExpr.IsDeclared (elem : TypeExpr) : Prop :=
  ∃ (w : Workspace) (made : Module × Module) (w' : Workspace),
    (Work.declareArray elem).run w = .ok (.ok made) w'

/-- Memory can hold what is neither a string nor a sequence. -/
theorem Ty.isStorable_iff {t : Ty} : t.isStorable = true ↔ t ≠ .str ∧ ∀ u, t ≠ .seq u := by
  cases t <;> simp [isStorable]

/-! ## Trees that are alike -/

/-- **Units that are the same but for spans are lowered to the same.** -/
theorem lowerUnit_of_respan {lib : Library} {deps : List Module} {root root' : Tree} {name : String}
    {u : LoweredUnit} (hspans : root.respan default = root'.respan default)
    (h : lowerUnit lib name deps root = .ok u) (name' : String) :
    ∃ u', lowerUnit lib name' deps root' = .ok u' ∧
      u'.module = { u.module with name := name', deps := deps.map (·.id) } ∧
        u'.initialisers.length = u.initialisers.length := by
  have hmatch : root.Matches (fun _ _ => True) root' :=
    Tree.matches_of_alike (fun _ _ => trivial) (Tree.alike_of_respan_eq default hspans)
  obtain ⟨u', hu', hlike⟩ := (lowerUnit_upheld (Module.Cover.refl deps) hmatch name name').ok h
  exact ⟨u', hu', hlike.module, hlike.initialisers.length_eq.symm⟩

namespace Container

variable {lib : Library} {name : String} {t : Ty} {m : Module}

/-- What a wrapper offers is not up to the name of its module. -/
theorem Offers.rename (h : Offers lib name t m) (unit : String) (deps : List ModuleId) :
    Offers lib name t { m with name := unit, deps := deps } := by
  have hlayouts : (lib.push { m with name := unit, deps := deps }).layouts = (lib.push m).layouts :=
    Source.layouts_push_congr (fun _ => rfl) rfl
  exact ⟨h.id, hlayouts ▸ h.self_fields, hlayouts ▸ h.block_fields,
    hlayouts ▸ h.header_fields, h.functions⟩

/-! ## Instances of the wrapper's template -/

/-- What fills the holes of a wrapper's template. -/
def wrapperBindings (name : String) (type : TypeExpr) (definition : Fragment) : Bindings :=
  .ofList [("w", .ident name), ("T", .type type), ("inner", .fragment definition)]

theorem fits_wrapperBindings (type : TypeExpr) (definition : Fragment) {template : Template}
    (hholes : template.holes = .ofList wrapperHoles) (hname : isFillingName name = true) :
    template.Fits (wrapperBindings name type definition) := by
  have hfind : ∀ hole, (wrapperBindings name type definition).find? hole = if hole = "inner" then
      some (.fragment definition) else if hole = "T" then some (.type type)
        else if hole = "w" then some (.ident name) else none := by
    simp [wrapperBindings, NameMap.ofList]
  refine fits_of_kinds (fun hole => ?_) fun hole value hvalue => ?_
  · rw [hfind, hholes]
    simp only [wrapperHoles, NameMap.ofList, List.foldl_cons, List.foldl_nil, NameMap.find?_insert,
      NameMap.find?_empty]
    repeat' split
    all_goals rfl
  · rw [hfind] at hvalue
    repeat' split at hvalue
    all_goals cases hvalue
    exact hname

/-- A symbol that can fill a hole spells a type. -/
theorem exists_ofFragment {f : Fragment} {struct : String}
    (hroot : f.root.respan default = word struct) (hstruct : isFillingName struct = true) :
    ∃ type, TypeExpr.ofFragment f = .ok type := by
  have hspells : checkType f.root = .ok () := by
    rcases hf : f.root with ⟨a, s⟩ | ⟨items, s⟩
    · rw [hf] at hroot
      injection hroot with ha
      subst ha
      exact if_pos hstruct
    · rw [hf] at hroot
      cases hroot
  refine ⟨⟨f, hspells⟩, ?_⟩
  unfold TypeExpr.ofFragment
  split
  · rfl
  · rename_i hcases
    rw [hspells] at hcases
    cases hcases

/-- **The wrapper around a header has a unit**, which is that of a wrapper, spans apart. -/
theorem exists_wrapperUnit (elem : TypeExpr) {header : Fragment}
    (hheader : header.root.respan default =
      (headerTree (suffixed elem.arrayName) elem.tree).respan default) :
    ∃ f type, wrapperUnit elem.arrayName header = .ok (.fragment elem.arrayName f, type) ∧
      f.root.respan default = (wrapperRoot elem.arrayName elem.tree).respan default := by
  obtain ⟨named, hpayload, hnamed⟩ := payload_header hheader
  have hfilling : isFillingName (elem.arrayName ++ "_header") = true :=
    elem.isFillingName_append "_header" (TypeExpr.plain_of_all (by decide))
  obtain ⟨type, htype⟩ := exists_ofFragment hnamed hfilling
  obtain ⟨f, hf⟩ := exists_instance reads_wrapper fun _ hholes =>
    fits_wrapperBindings type header hholes elem.isFillingName_arrayName
  refine ⟨f, type, ?_, ?_⟩
  · unfold wrapperUnit
    exact (bind_of_ok hpayload _).trans
      ((bind_of_ok (mapError_of_ok htype _) _).trans (bind_of_ok hf _))
  · obtain rfl := TypeExpr.fragment_ofFragment htype
    exact (instance_wrapper hf).trans (respan_wrapperTree hheader hnamed)

end Container

/-! ## What can be declared -/

/-- A fragment is lowered when its tree is. -/
theorem SourceUnit.lower_fragment {lib : Library} {name : String} {deps : List Module}
    {f : Fragment} {u : LoweredUnit} (h : lowerUnit lib name deps f.root = .ok u) :
    (fragment name f).lower lib deps = .ok (u, f.origin) := by
  unfold lower
  exact (bind_of_ok rfl _).trans (bind_of_ok (mapError_of_ok h _) _)

/-- The global of an array's operations is initialised with a constant. -/
theorem Container.constant_of_operations {lib : Library} {unit name : String} {deps : List Module}
    {root elem : Tree} {u : LoweredUnit}
    (hroot : root.respan default = (operationsRoot name elem).respan default)
    (h : lowerUnit lib unit deps root = .ok u) :
    ∀ init ∈ u.initialisers, ∃ v, init.code = .const v := by
  obtain ⟨names, forms, globals, hlowered⟩ := lowered_of_lowerUnit h
  obtain ⟨s, hinits⟩ := Source.Scenery.inits_operations hroot
  obtain ⟨-, init, hinitialisers, hcode⟩ := hlowered.initialisers_of_number hinits
  rw [hinitialisers]
  exact List.forall_mem_singleton.2 ⟨_, hcode⟩

/-- A name that is too short for the structs of a wrapper is that of no struct there. -/
theorem Container.type?_wrapper {lib : Library} {name : String} {elem : Tree} {s : String}
    (hshort : s.length < name.length) : (wrapperNames lib name elem).type? s = Ty.primitive? s := by
  have hnot : ∀ suffix : String, s ≠ name ++ suffix := by
    rintro suffix rfl
    rw [String.length_append] at hshort
    omega
  have hself : s ≠ name := fun heq => hnot "" (heq.trans String.append_empty.symm)
  have hown : s ∉ (wrapperNames lib name elem).structs := by
    show s ∉ [name ++ "_header", name ++ "_block", name]
    simp [hnot, hself]
  rw [Names.type?]
  rcases Ty.primitive? s with _ | t
  · dsimp only
    rw [if_neg (mt List.contains_iff_mem.1 hown)]
    rfl
  · rfl

/-- **A wrapper around a header is lowered only for elements that memory can hold**, of a type that
is spelled in full if no struct of the wrapper has a name that short. -/
theorem Container.spells_of_lowerUnit {lib : Library} {unit name : String} {elem : Tree}
    {u : LoweredUnit} (hname : Free name) (hshort : (TypeExpr.mangleTree elem).length < name.length)
    (h : lowerUnit lib unit [] (wrapperRoot name elem) = .ok u) :
    ∃ t, elem.Spells t ∧ t.isStorable = true := by
  obtain ⟨o, ho, h⟩ := ok_of_bind h
  cases (Outline.ofUnit_ok_iff.2 (sorts_wrapper hname)).symm.trans ho
  obtain ⟨structs, hstructs, -⟩ := ok_of_bind h
  obtain ⟨fields, hfields, -⟩ :=
    layOutAll_reads (sorts_wrapper hname).nodup hstructs
      (Indexed.headerForm name elem) List.mem_cons_self
  obtain ⟨_, _, -, hrest, -⟩ := List.forall₂_cons_left_iff.1 hfields
  obtain ⟨field, _, ⟨⟨_, _, hpair, -, htype⟩, hstorable⟩, -⟩ := List.forall₂_cons_left_iff.1 hrest
  cases hpair
  exact ⟨field.2, spells_of_resolveType (fun _ hlt => type?_wrapper hlt) htype hshort, hstorable⟩

namespace Work

variable {w : Workspace} {elem : TypeExpr} {t : Ty}

/-- **An array of elements whose type is spelled in full, and which memory can hold, is declared**
wherever its name is new. -/
theorem declareArray_run (harrays : w.registry.arrays.find? elem.arrayName = none)
    (hwrappers : w.registry.wrappers.find? elem.arrayName = none) (helem : elem.tree.Spells t)
    (hstorable : t.isStorable = true) :
    ∃ made w', (declareArray elem).run w = .ok (.ok made) w' := by
  have hname := Container.free_arrayName elem
  obtain ⟨header, operations, hparts⟩ := Container.exists_arrayParts elem
  obtain ⟨_, hheader, hrest⟩ := ok_of_bind hparts
  obtain ⟨_, hoperations, hrest⟩ := ok_of_bind hrest
  cases hrest
  -- the wrapper
  obtain ⟨body, type, hunit, hbody⟩ := Container.exists_wrapperUnit elem (instance_header hheader)
  obtain ⟨u, hlower, hinits, hoffers⟩ : ∃ u,
      lowerUnit w.library elem.arrayName [] (Container.wrapperRoot elem.arrayName elem.tree) =
        .ok u ∧
        u.initialisers = [] ∧ Container.Offers w.library elem.arrayName t u.module :=
    Container.lowers_wrapper hname helem hstorable elem.arrayName
  obtain ⟨u', hlower', hmodule, hlength⟩ := lowerUnit_of_respan hbody.symm hlower elem.arrayName
  rw [hinits, List.length_nil, List.length_eq_zero_iff] at hlength
  obtain ⟨w₁, hwrapper⟩ :=
    declareWrapper_run (NameMap.contains_eq_false_iff.2 hwrappers) hunit
      (SourceUnit.lower_fragment hlower') hlength
  -- the operations
  obtain ⟨v, hlower⟩ :=
    Container.lowers_operations hname (hmodule ▸ hoffers.rename _ _) helem hstorable
      (elem.arrayName ++ "_ops")
  obtain ⟨v', hlower', -⟩ := lowerUnit_of_respan (instance_operations hoperations).symm hlower
    (elem.arrayName ++ "_ops")
  rw [← (gains_of_declareWrapper hwrapper).library] at hlower'
  obtain ⟨w₂, hcompile⟩ := compile_run (SourceUnit.lower_fragment hlower')
    (Container.constant_of_operations (instance_operations hoperations) hlower')
  have hrun : (declareArray elem).run w = _ := run_bind_ok rfl
  dsimp only at hrun
  rw [NameMap.contains_eq_false_iff.2 harrays, if_neg Bool.false_ne_true, hparts] at hrun
  exact ⟨_, _, hrun.trans ((run_bind_ok (run_ofExcept _)).trans ((run_bind_ok hwrapper).trans
    ((run_bind_ok (run_tryCatch_ok (compileGenerated_run hcompile))).trans rfl)))⟩

/-- **An array that could be declared has elements whose type is spelled in full**, and which memory
can hold. -/
theorem spells_of_declareArray {made : Module × Module} {w' : Workspace}
    (h : (declareArray elem).run w = .ok (.ok made) w') :
    ∃ t, elem.tree.Spells t ∧ t.isStorable = true := by
  obtain ⟨header, operations, w₁, w₂, hparts, hwrapper, -⟩ := declareArray_compiled h
  obtain ⟨_, hheader, hrest⟩ := ok_of_bind hparts
  obtain ⟨_, -, hrest⟩ := ok_of_bind hrest
  cases hrest
  obtain ⟨unit, type, lowered, origin, hunit, hlower, -⟩ := declareWrapper_ok hwrapper
  obtain ⟨body, type', hunit', hbody⟩ := Container.exists_wrapperUnit elem (instance_header hheader)
  cases hunit.symm.trans hunit'
  obtain ⟨f, hread, hlower⟩ := lower_outcome hlower
  cases hread
  obtain ⟨u, hlower, -⟩ := lowerUnit_of_respan hbody hlower elem.arrayName
  exact Container.spells_of_lowerUnit
    (Container.free_arrayName elem) elem.length_mangleTree_lt hlower

/-- Only elements that can be declared are declared. -/
theorem declarable_of_declareArray {made : Module × Module} {w' : Workspace}
    (h : (declareArray elem).run w = .ok (.ok made) w') : elem.tree.Declarable := by
  obtain ⟨t, hspells, hstorable⟩ := spells_of_declareArray h
  exact ⟨t, hspells, Ty.isStorable_iff.1 hstorable⟩

/-- **What elements an array can have.** Where neither registry has the name yet, an array is
declared just if the type of its elements is made with `ptr` and `seq` from a word that names a type
by itself, and is neither a string nor a sequence. Of the arrays that are declared at all, no two
have one name and elements of different types. -/
theorem declareArray_iff_declarable :
    (∀ (w : Workspace) (elem : TypeExpr), w.registry.arrays.find? elem.arrayName = none →
        w.registry.wrappers.find? elem.arrayName = none →
          ((∃ made w', (declareArray elem).run w = .ok (.ok made) w') ↔ elem.tree.Declarable)) ∧
      ∀ elem elem' : TypeExpr, elem.IsDeclared → elem'.IsDeclared →
        elem.arrayName = elem'.arrayName →
        elem.tree.alike elem'.tree = true := by
  refine ⟨fun w elem harrays hwrappers => ⟨fun ⟨_, _, hrun⟩ => declarable_of_declareArray hrun, ?_⟩,
    ?_⟩
  · rintro ⟨t, hspells, hstorable⟩
    exact declareArray_run harrays hwrappers hspells (Ty.isStorable_iff.2 hstorable)
  · rintro elem elem' ⟨w, made, w₁, hrun⟩ ⟨w', made', w₁', hrun'⟩ hname
    obtain ⟨t, hspells, -⟩ := spells_of_declareArray hrun
    obtain ⟨t', hspells', -⟩ := spells_of_declareArray hrun'
    refine hspells.alike_of_mangleTree_eq hspells' ?_
    simpa [TypeExpr.arrayName, TypeExpr.mangled] using hname

/-- Pointers to sequences of strings, written at some place. -/
def pointerType (s : Span) : TypeExpr :=
  ⟨⟨.node [.leaf (.sym "ptr") s, .node [.leaf (.sym "seq") s, .leaf (.sym "str") s] s] s,
    ⟨"(ptr (seq str))", ""⟩⟩, by rfl⟩

/-- Strings. -/
def stringType : TypeExpr := ⟨⟨.leaf (.sym "str") default, ⟨"str", ""⟩⟩, by rfl⟩

/-- Where nothing is declared yet, there can be an array of pointers, wherever their type is
written, and none of strings. -/
theorem declareArray_iff_declarable_pointers :
    (∃ made w',
      (declareArray (pointerType default)).run (.initial 4096 (.empty "/")) = .ok (.ok made) w') ∧
      (¬∃ made w', (declareArray stringType).run (.initial 4096 (.empty "/")) = .ok (.ok made) w') ∧
      (pointerType default).tree.alike (pointerType ⟨3, 20⟩).tree = true := by
  have hspells : ∀ s, (pointerType s).tree.Declarable := fun s =>
    ⟨.ptr (.seq .str), .ptr rfl (.seq rfl (.word rfl)), by simp, by simp⟩
  have hdeclared : ∀ s, ∃ made w',
      (declareArray (pointerType s)).run (.initial 4096 (.empty "/")) =
      .ok (.ok made) w' := fun s =>
    (declareArray_iff_declarable.1 (.initial 4096 (.empty "/")) (pointerType s) rfl rfl).2
      (hspells s)
  refine ⟨hdeclared default, fun hstring => ?_,
    declareArray_iff_declarable.2 _ _ ⟨_, hdeclared default⟩ ⟨_, hdeclared ⟨3, 20⟩⟩ rfl⟩
  obtain ⟨t, hstr, hne, -⟩ :=
    (declareArray_iff_declarable.1 (.initial 4096 (.empty "/")) stringType rfl rfl).1 hstring
  cases hstr with
  | word hword => exact hne (Option.some.inj hword).symm

end Work

end Kiln
