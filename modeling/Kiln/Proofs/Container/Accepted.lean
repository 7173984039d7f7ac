import Kiln.Proofs.Container.Arrays
import Kiln.Proofs.Container.Bodies
import Kiln.Proofs.Container.Spelling
/-!
# The units of an array are accepted

If the type of the elements is spelled in full and memory can hold them, the wrapper around the
header of their array is lowered (`Container.lowers_wrapper`). Its structs are ranked, as only a
block holds one of the others by value, and the bodies of its functions are typed in the scene that
the structs set. The module offers its structs and functions to the operations, which are lowered
against it (`Container.lowers_operations`).
-/

namespace Kiln

open Blueprint Lowering

namespace Names

variable {names : Names}

/-- A name of the unit's own struct. -/
theorem type?_own {struct : String} (hreserved : isReserved struct = false)
    (hmem : struct ∈ names.structs) :
    names.type? struct = some (.struct ⟨names.home, struct⟩) := by
  rw [type?, Source.primitive?_eq_none hreserved]
  dsimp only
  rw [if_pos (List.contains_iff_mem.2 hmem)]

theorem resolveType_word {struct : String} {t : Ty} (h : names.type? struct = some t) :
    names.resolveType (word struct) = .ok t := by
  rw [word, resolveType, h]

end Names

namespace Container

variable {names : Names} {lib : Library} {name : String} {elem : Tree} {t : Ty}

/-! ## Functions of a unit -/

/-- A definition as the containers write it: what it names has the container's name in front. -/
theorem definesFunction (hname : Free name) {suffix : String} (hsuffix : '$' ∉ suffix.toList)
    (params : List (Param × Tree))
    (hparams : ∀ p ∈ params, declaredName (word p.1.1) .parameter = .ok p.1.1 ∧
      names.resolveType p.2 = .ok p.1.2)
    (hnodup : (params.map (·.1.1)).Nodup) {resultTree : Tree} {result : Ty}
    (hresult : names.resolveType resultTree = .ok result) (body : List Tree) :
    names.DefinesFunction
      (list ([word "fun", suffixed name suffix, list (params.map fun p => list [word p.1.1, p.2]),
        resultTree] ++ body))
      (formOf ⟨name ++ suffix, params.map (·.1), result, body⟩) := by
  refine ⟨⟨_, _, _, _, rfl, hname.declaredName_suffixed suffix hsuffix _, rfl,
    Names.params_ok_iff.2 ⟨?_, ?_⟩, hresult⟩, rfl⟩
  · rw [formOf, List.forall₂_map_left_iff, List.forall₂_map_right_iff, List.forall₂_same]
    exact fun p hp => ⟨_, _, rfl, hparams p hp⟩
  · rwa [formOf, List.map_map]

/-! ## The unit of a wrapper -/

/-- The definitions of a wrapper around the header of an array. -/
abbrev wrapperRoot (name : String) (elem : Tree) : Tree :=
  wrapperTree (word name) (suffixed name) (suffixed name "_header")
    (headerTree (suffixed name) elem)

/-- They are three structs and the functions of a wrapper. -/
def wrapperOutline (name : String) (elem : Tree) : Outline where
  structs :=
    [Indexed.headerForm name elem, Wraps.blockForm name (suffixed name "_header"),
      Wraps.selfForm name]
  functions := (definitions (wrapperRoot name elem)).filter (·.opens "fun")
  globals := []

theorem sorts_wrapper (hname : Free name) :
    (wrapperOutline name elem).Sorts (definitions (wrapperRoot name elem)) := by
  have hdollar : ∀ suffix ∈ ["_header", "_block"], '$' ∉ suffix.toList := by decide
  simp only [List.forall_mem_cons] at hdollar
  refine ⟨?_, ?_, ?_, rfl, rfl⟩
  · have hdefinitions : definitions (wrapperRoot name elem) = headerTree (suffixed name) elem ::
        wrapperDefinitions (word name) (suffixed name) (suffixed name "_header") := rfl
    rw [hdefinitions]
    simp only [wrapperDefinitions, List.forall_mem_cons]
    exact ⟨.inl rfl, .inl rfl, .inl rfl, .inr (.inl rfl), .inr (.inl rfl), .inr (.inl rfl),
      .inr (.inl rfl), .inr (.inl rfl), fun _ hmem => absurd hmem List.not_mem_nil⟩
  · exact .cons ⟨_, rfl, hname.declaredName_suffixed _ hdollar.1 _, rfl⟩
      (.cons ⟨_, rfl, hname.declaredName_suffixed _ hdollar.2.1 _, rfl⟩
        (.cons ⟨_, rfl, hname.declaredName_self _, rfl⟩ .nil))
  · simp [wrapperOutline, Indexed.headerForm, Wraps.blockForm, Wraps.selfForm]

section Structs

variable (hstructs : names.structs = (wrapperOutline name elem).structs.map (·.name))

theorem readsField {field : String} {tree : Tree} {t : Ty}
    (hfield : declaredName (word field) .field = .ok field) (htree : names.resolveType tree = .ok t)
    (hstorable : t.isStorable = true) :
    names.ReadsField (list [word field, tree]) (field, t) :=
  ⟨⟨_, _, rfl, hfield, htree⟩, hstorable⟩

include hstructs

theorem resolveType_suffixed (hname : Free name) {suffix : String}
    (hsuffix : suffix ∈ ["_header", "_block"]) :
    names.resolveType (suffixed name suffix) = .ok (.struct ⟨names.home, name ++ suffix⟩) := by
  refine Names.resolveType_word (Names.type?_own (hname.unreserved suffix) ?_)
  rw [hstructs]
  rcases List.mem_pair.1 hsuffix with rfl | rfl
  · exact List.mem_cons_self
  · exact List.mem_cons_of_mem _ List.mem_cons_self

theorem resolveType_self (hname : Free name) :
    names.resolveType (word name) = .ok (.struct ⟨names.home, name⟩) := by
  have hreserved := hname.unreserved ""
  rw [String.append_empty] at hreserved
  refine Names.resolveType_word (Names.type?_own hreserved ?_)
  rw [hstructs]
  exact List.mem_cons_of_mem _ (List.mem_cons_of_mem _ List.mem_cons_self)

omit hstructs in
theorem readsFields_header (helem : elem.Spells t) (hstorable : t.isStorable = true) :
    names.ReadsFields (Indexed.headerForm name elem) [("length", .u64), ("first", t)] :=
  ⟨.cons (readsField rfl rfl rfl)
    (.cons (readsField rfl (helem.resolveType names) hstorable) .nil), by simp⟩

theorem readsFields_block (hname : Free name) :
    names.ReadsFields (Wraps.blockForm name (suffixed name "_header"))
      [("count", .i64), ("payload", .struct ⟨names.home, name ++ "_header"⟩)] :=
  ⟨.cons (readsField rfl rfl rfl)
    (.cons (readsField rfl (resolveType_suffixed hstructs hname (by simp)) rfl) .nil), by simp⟩

theorem readsFields_self (hname : Free name) :
    names.ReadsFields (Wraps.selfForm name)
      [("block", .ptr (.struct ⟨names.home, name ++ "_block"⟩))] :=
  ⟨.cons (readsField rfl
    (congrArg (Except.map Ty.ptr) (resolveType_suffixed hstructs hname (by simp))) rfl)
    .nil, by simp⟩

/-- A block holds a header, and nothing else is held by value. -/
theorem ranked_wrapper (hname : Free name) (helem : elem.Spells t)
    (hstorable : t.isStorable = true) :
    names.Ranked (wrapperOutline name elem).structs
      fun struct => if struct = name ++ "_block" then 1 else 0 := by
  have hnot : ∀ {type : Ty}, (∀ ref, type ≠ .struct ref) → ∀ inner,
      names.ownStruct? (wrapperOutline name elem).structs type ≠ some inner :=
    fun htype inner hinner => htype _ (Names.ownStruct?_eq_some hinner)
  simp only [Names.Ranked, wrapperOutline, List.forall_mem_cons]
  refine ⟨⟨_, readsFields_header helem hstorable, ?_⟩, ⟨_, readsFields_block hstructs hname, ?_⟩,
    ⟨_, readsFields_self hstructs hname, ?_⟩, fun _ hmem => absurd hmem List.not_mem_nil⟩
  all_goals simp only [List.forall_mem_cons]
  · exact ⟨fun inner hinner => absurd hinner (hnot (by simp) inner),
      fun inner hinner => absurd hinner (hnot helem.ne_struct inner),
      fun _ hmem => absurd hmem List.not_mem_nil⟩
  · refine ⟨fun inner hinner => absurd hinner (hnot (by simp) inner), fun inner hinner => ?_,
      fun _ hmem => absurd hmem List.not_mem_nil⟩
    have hheader : name ++ "_header" = inner.name :=
      congrArg StructRef.name (Ty.struct.inj (Names.ownStruct?_eq_some hinner))
    simp [← hheader, Wraps.blockForm]
  · exact ⟨fun inner hinner => absurd hinner (hnot (by simp) inner),
      fun _ hmem => absurd hmem List.not_mem_nil⟩

end Structs

/-! ### Lowering -/

/-- What is put behind the name of a container for the functions of its wrapper, -/
def wrapperSuffixes : List String := ["_new", "_deref", "_duplicate", "_release", "_count"]

/-- and for its operations. -/
def operationSuffixes : List String :=
  ["_data_offset", "_new", "_length", "_index_address", "_index"]

/-- A name that ends like none of these is none of the names made with them. -/
theorem not_mem_suffixed {suffixes : List String} {target : String}
    (h : ∀ suffix ∈ suffixes, ¬suffix.toList <:+ target.toList) :
    target ∉ suffixes.map (name ++ ·) := by
  intro hmem
  obtain ⟨suffix, hsuffix, heq⟩ := List.mem_map.1 hmem
  exact Wraps.append_ne (h suffix hsuffix) heq

theorem nodup_suffixed (suffixes : List String) (h : suffixes.Nodup) :
    (suffixes.map (name ++ ·)).Nodup :=
  h.map fun a b heq => by simpa using heq

/-- What the module of a wrapper around a header offers to units that depend on it. -/
structure Offers (lib : Library) (name : String) (t : Ty) (m : Module) : Prop where
  id : m.id = lib.nextId
  self_fields : (lib.push m).layouts.HasFields ⟨lib.nextId, name⟩
    [("block", .ptr (.struct ⟨lib.nextId, name ++ "_block"⟩))]
  block_fields : (lib.push m).layouts.HasFields ⟨lib.nextId, name ++ "_block"⟩
    [("count", .i64), ("payload", .struct ⟨lib.nextId, name ++ "_header"⟩)]
  header_fields :
    (lib.push m).layouts.HasFields ⟨lib.nextId, name ++ "_header"⟩ [("length", .u64), ("first", t)]
  functions : m.functions.map (·.name) = wrapperSuffixes.map (name ++ ·)

section Lower

/-- The names of a wrapper of which nothing but the names of its structs is known. -/
abbrev wrapperNames (lib : Library) (name : String) (elem : Tree) : Names :=
  (wrapperOutline name elem).names lib []

/-- The type of handles, -/
abbrev handleType (lib : Library) (name : String) : Ty := .struct ⟨lib.nextId, name⟩

/-- and that of headers. -/
abbrev headerType (lib : Library) (name : String) : Ty := .struct ⟨lib.nextId, name ++ "_header"⟩

/-- The functions of a wrapper around a header. -/
abbrev wrapperForms (lib : Library) (name : String) : List FunctionForm :=
  (Wraps.functions name (handleType lib name) (headerType lib name)).map formOf

variable (hname : Free name) {structs : List StructDef}

include hname

theorem defines_wrapper :
    List.Forall₂ ((wrapperNames lib name elem).withStructs structs).DefinesFunction
    (wrapperOutline name elem).functions (wrapperForms lib name) := by
  have hhandle : ((wrapperNames lib name elem).withStructs structs).resolveType (word name) =
      .ok (handleType lib name) := resolveType_self rfl hname
  have hheader :
      ((wrapperNames lib name elem).withStructs structs).resolveType (suffixed name "_header") =
      .ok (headerType lib name) := resolveType_suffixed rfl hname (by simp)
  have hunary :
      ∀ {suffix : String} (_ : '$' ∉
        suffix.toList) {param : String} {tree result : Tree} {t u : Ty},
      declaredName (word param) .parameter = .ok param →
        ((wrapperNames lib name elem).withStructs structs).resolveType tree = .ok t →
          ((wrapperNames lib name elem).withStructs structs).resolveType result = .ok u → ∀ body,
            ((wrapperNames lib name elem).withStructs structs).DefinesFunction
              (unary (suffixed name suffix) param tree result body)
              (formOf ⟨name ++ suffix, [(param, t)], u, body⟩) := by
    intro suffix hsuffix param tree result t u hparam htree hresult body
    exact definesFunction hname hsuffix [((param, t), tree)]
      (List.forall_mem_singleton.2 ⟨hparam, htree⟩) (List.nodup_singleton _) hresult body
  have hpointer : ((wrapperNames lib name elem).withStructs structs).resolveType
      (list [word "ptr", suffixed name "_header"]) = .ok (.ptr (headerType lib name)) :=
    congrArg (Except.map Ty.ptr) hheader
  exact .cons (hunary (by decide) rfl hheader hhandle _)
    (.cons (hunary (by decide) rfl hhandle hpointer _)
      (.cons (hunary (by decide) rfl hhandle hhandle _)
        (.cons (hunary (by decide) rfl hhandle rfl _)
          (.cons (hunary (by decide) rfl hhandle rfl _) .nil))))

variable (helem : elem.Spells t) (hstorable : t.isStorable = true)
  (hstructs : layOutAll (wrapperNames lib name elem)
    (wrapperOutline name elem).structs = .ok structs)

include helem hstorable hstructs

/-- The structs have the fields that they are written with. -/
theorem fields_wrapper {m : Module} (hm : m.structs = structs) :
    ((wrapperNames lib name elem).withStructs structs).layouts = (lib.push m).layouts ∧
      (lib.push m).layouts.HasFields ⟨lib.nextId, name⟩
      [("block", .ptr (.struct ⟨lib.nextId, name ++ "_block"⟩))] ∧
      (lib.push m).layouts.HasFields ⟨lib.nextId, name ++ "_block"⟩
        [("count", .i64), ("payload", headerType lib name)] ∧
      (lib.push m).layouts.HasFields ⟨lib.nextId, name ++ "_header"⟩
      [("length", .u64), ("first", t)] := by
  have houtlines : (wrapperNames lib name elem).Outlines (wrapperOutline name elem).structs :=
    ⟨rfl, fun _ hdep => absurd hdep List.not_mem_nil⟩
  have hlayouts := Source.layouts_push (wrapperNames lib name elem) hm rfl rfl
  have hfields : ∀ {form fields}, form ∈ (wrapperOutline name elem).structs →
      (wrapperNames lib name elem).ReadsFields form fields →
        (lib.push m).layouts.HasFields ⟨lib.nextId, form.name⟩ fields := by
    intro form fields hform hread
    rw [← hlayouts]
    exact Names.hasFields_of_layOutAll houtlines (sorts_wrapper hname).nodup hstructs hform hread
  exact ⟨hlayouts, hfields (List.mem_cons_of_mem _ (List.mem_cons_of_mem _ List.mem_cons_self))
      (readsFields_self rfl hname),
      hfields (List.mem_cons_of_mem _ List.mem_cons_self) (readsFields_block rfl hname),
    hfields List.mem_cons_self (readsFields_header helem hstorable)⟩

/-- What the bodies of the functions are typed with. -/
theorem scene_wrapper : Scene
    (((wrapperNames lib name elem).withStructs structs).withDefinitions (wrapperForms lib name) [])
    name
    ⟨lib.nextId, name⟩ ⟨lib.nextId, name ++ "_block"⟩ (headerType lib name) := by
  have hbase : ∀ (function : String) {i : Nat} {f : Function},
      (∀ suffix ∈ wrapperSuffixes, ¬suffix.toList <:+ function.toList) →
        Module.base.functionIndex? function = some i →
        Module.base.functions[i]? = some f →
          (((wrapperNames lib name elem).withStructs structs).withDefinitions
            (wrapperForms lib name) []).function? function =
            some (.foreign ⟨0⟩ i, f.params, f.result) := by
    intro function i f hsuffix hi hf
    exact Names.function?_base (not_mem_suffixed hsuffix)
      (fun _ hm => absurd hm List.not_mem_nil) hi hf
  obtain ⟨hlayouts, hself, hblock, -⟩ := fields_wrapper hname helem hstorable hstructs
    (m := ⟨lib.nextId, name, [], [], structs, []⟩) rfl
  rw [← hlayouts] at hself hblock
  exact ⟨resolveType_self rfl hname, resolveType_suffixed rfl hname (by simp), hself, hblock,
    hbase "malloc" (by decide) rfl rfl, hbase "free" (by decide) rfl rfl⟩

omit hstructs in
/-- No struct takes so much that it could not be laid out. -/
theorem not_oversized_wrapper (struct : String) :
    ¬(wrapperNames lib name elem).Oversized (wrapperOutline name elem).structs struct := by
  rintro ⟨done, form, fields, hlaid, hform, -, hfields, hnone⟩
  have hword : UInt64.size = 2 ^ 64 := rfl
  have hscalars :
      ∀ {Γ : Layouts} (fields : List (String × Ty)), (∀ f ∈ fields, ∀ ref, f.2 ≠ .struct ref) →
      fields.length ≤ 2 → ∃ l, Layout.ofFields? Γ fields = some l ∧ l.size.toNat ≤ 37 ∧
        (l.align = 1 ∨ l.align = 8) := by
    intro Γ fields hne hlength
    have haligns := fun f hf => Ty.align_of_ne_struct (Γ := Γ) (hne f hf)
    obtain ⟨l, hl, hsize⟩ :=
      Layout.ofFields?_ok haligns (fun f hf => Ty.size_le_eight (hne f hf)) (by omega)
    exact ⟨l, hl, by omega, (Layout.ofFields?_packed haligns hl).2⟩
  have hheaderFields : ∀ f ∈ [("length", .u64), ("first", t)], ∀ ref, f.2 ≠ .struct ref := by
    simp [helem.ne_struct]
  simp only [wrapperOutline, List.mem_cons, List.not_mem_nil, or_false] at hform
  rcases hform with rfl | rfl | rfl
  · obtain rfl := Names.eq_of_reads hfields (readsFields_header helem hstorable)
    obtain ⟨l, hl, -⟩ := hscalars _ hheaderFields (Nat.le_refl 2)
    exact nomatch hnone.symm.trans hl
  · -- a block holds a header, which is laid out
    obtain rfl := Names.eq_of_reads hfields (readsFields_block rfl hname)
    have houtlines : (wrapperNames lib name elem).Outlines (wrapperOutline name elem).structs :=
      ⟨rfl, fun _ hdep => absurd hdep List.not_mem_nil⟩
    obtain ⟨tree, -, hpayload⟩ :=
      exists_of_forall₂ hfields (List.mem_cons_of_mem _ List.mem_cons_self)
    obtain ⟨l, hfound, hl⟩ :=
      hlaid.layout_of_reads houtlines (sorts_wrapper hname).nodup List.mem_cons_self
        (hpayload.mem_of_own houtlines rfl rfl) (readsFields_header helem hstorable)
    obtain ⟨l', hl', hsize, halign⟩ := hscalars _ hheaderFields (Nat.le_refl 2)
    obtain rfl : l = l' := Option.some.inj (hl.symm.trans hl')
    rw [← Ty.align_struct hfound] at halign
    rw [← Ty.size_struct hfound] at hsize
    generalize ((wrapperNames lib name elem).withStructs done).layouts = Γ at halign hsize hnone
    have haligns :
        ∀ f ∈ [("count", .i64), ("payload", headerType lib name)], f.2.align Γ = 1 ∨
          f.2.align Γ = 8 :=
      List.forall_mem_cons.2 ⟨.inr rfl, List.forall_mem_singleton.2 halign⟩
    have hsizes :
        ∀ f ∈ [("count", .i64), ("payload", headerType lib name)], (f.2.size Γ).toNat ≤ 37 :=
      List.forall_mem_cons.2 ⟨(by decide : 8 ≤ 37), List.forall_mem_singleton.2 hsize⟩
    obtain ⟨block, hblock, -⟩ :=
      Layout.ofFields?_ok haligns hsizes (by decide : 2 * 44 < UInt64.size)
    exact nomatch hnone.symm.trans hblock
  · obtain rfl := Names.eq_of_reads hfields (readsFields_self rfl hname)
    obtain ⟨l, hl, -⟩ := hscalars [("block", .ptr _)] (by simp) (Nat.le_succ 1)
    exact nomatch hnone.symm.trans hl

omit hstructs in
/-- **The unit of a wrapper around a header is lowered**, for elements that memory can hold. -/
theorem lowers_wrapper (unit : String) :
    ∃ u, lowerUnit lib unit [] (wrapperRoot name elem) = .ok u ∧
    u.initialisers = [] ∧ Offers lib name t u.module := by
  have hranked : (wrapperNames lib name elem).Ranked _ _ := ranked_wrapper rfl hname helem hstorable
  obtain ⟨structs, hstructs⟩ :=
    layOutAll_ok_of_rank hranked (not_oversized_wrapper hname helem hstorable)
  have hnodup : ((wrapperForms lib name).map (·.signature.name)).Nodup :=
    nodup_suffixed wrapperSuffixes (by decide)
  obtain ⟨functions, initialisers, hfunctions, hinits, hlower⟩ :=
    exists_lowerUnit (sorts_wrapper hname) hstructs (defines_wrapper hname) hnodup rfl
      ((scene_wrapper hname helem hstorable hstructs).lowers rfl)
    (fun _ hg => absurd hg List.not_mem_nil) unit
  obtain ⟨-, hself, hblock, hheader⟩ := fields_wrapper hname helem hstorable hstructs
    (m := ⟨lib.nextId, unit, [], functions, structs, []⟩) rfl
  exact ⟨_, hlower, List.length_eq_zero_iff.1 hinits, rfl, hself, hblock, hheader, hfunctions⟩

end Lower

/-! ## The unit of the operations -/

/-- The definitions of the operations of an array. -/
abbrev operationsRoot (name : String) (elem : Tree) : Tree :=
  operationsTree (word name) (suffixed name) elem

/-- They are a global and functions. -/
def operationsOutline (name : String) (elem : Tree) : Outline where
  structs := []
  functions := (definitions (operationsRoot name elem)).filter (·.opens "fun")
  globals := [list [word "global", suffixed name "_cached_offset", word "i64", number (-1)]]

theorem sorts_operations :
    (operationsOutline name elem).Sorts (definitions (operationsRoot name elem)) := by
  refine ⟨?_, .nil, List.nodup_nil, rfl, rfl⟩
  have hdefinitions : definitions (operationsRoot name elem) =
      operationDefinitions (word name) (suffixed name) elem := rfl
  rw [hdefinitions]
  simp only [operationDefinitions, List.forall_mem_cons]
  exact ⟨.inr (.inr rfl), .inr (.inl rfl), .inr (.inl rfl), .inr (.inl rfl), .inr (.inl rfl),
    .inr (.inl rfl), fun _ hmem => absurd hmem List.not_mem_nil⟩

section Operations

/-- The names of the operations, of which functions and globals are not known yet. -/
abbrev operationNames (lib : Library) (m : Module) (name : String) (elem : Tree) : Names :=
  ((operationsOutline name elem).names (lib.push m) [m]).withStructs []

/-- The operations. -/
abbrev operationForms (lib : Library) (name : String) (elem : Tree) (t : Ty) : List FunctionForm :=
  (Indexed.functions name (handleType lib name) t elem).map formOf

/-- Their global. -/
abbrev operationGlobals (name : String) : List GlobalForm :=
  [⟨⟨name ++ "_cached_offset", .i64⟩, number (-1)⟩]

variable {m : Module} (hname : Free name) (hoffers : Offers lib name t m)

include hoffers

/-- A struct of the wrapper is seen by the operations. -/
theorem resolveType_operations (hstructs : names.structs = []) (hdeps : names.deps = [m])
    {struct : String} {fields : List (String × Ty)} (hreserved : isReserved struct = false)
    (hfields : (lib.push m).layouts.HasFields ⟨lib.nextId, struct⟩ fields) :
    names.resolveType (word struct) = .ok (.struct ⟨lib.nextId, struct⟩) := by
  obtain ⟨l, hl, -⟩ := hfields
  rw [Wraps.find?_layouts (Source.find?_push_nextId lib m)] at hl
  have hstruct : m.structType? struct = some (.struct ⟨lib.nextId, struct⟩) := by
    rw [Module.structType?, hl, hoffers.id]
    rfl
  refine Names.resolveType_word ?_
  rw [Names.type?, Source.primitive?_eq_none hreserved, hstructs, hdeps]
  dsimp only
  rw [if_neg (by simp), List.findSome?_singleton, hstruct]

/-- It has the fields that it has there. -/
theorem hasFields_operations {struct : String} {fields : List (String × Ty)}
    (hfields : (lib.push m).layouts.HasFields ⟨lib.nextId, struct⟩ fields) :
    (operationNames lib m name elem).layouts.HasFields ⟨lib.nextId, struct⟩ fields := by
  have hthere : (lib.push m).find? m.id = some m := hoffers.id ▸ Source.find?_push_nextId lib m
  obtain ⟨l, hl, heq⟩ := hfields
  refine ⟨l, ?_, heq⟩
  show (if lib.nextId = (lib.push m).nextId then _ else (lib.push m).layouts.find? _) = _
  rw [if_neg (hoffers.id ▸ Library.ne_nextId hthere)]
  exact hl

include hname

theorem resolveType_handle (hstructs : names.structs = []) (hdeps : names.deps = [m]) :
    names.resolveType (word name) = .ok (handleType lib name) := by
  have hreserved := hname.unreserved ""
  rw [String.append_empty] at hreserved
  exact resolveType_operations hoffers hstructs hdeps hreserved hoffers.self_fields

variable (helem : elem.Spells t)

include helem

theorem defines_operations : List.Forall₂ (operationNames lib m name elem).DefinesFunction
    (operationsOutline name elem).functions (operationForms lib name elem t) := by
  have hhandle :
      (operationNames lib m name elem).resolveType (word name) = .ok (handleType lib name) :=
    resolveType_handle hname hoffers rfl rfl
  have helemTree := helem.resolveType (operationNames lib m name elem)
  have hitems : declaredName (word "items") .parameter = .ok "items" ∧
      (operationNames lib m name elem).resolveType (list [word "seq", elem]) = .ok (.seq t) :=
    ⟨rfl, congrArg (Except.map Ty.seq) helemTree⟩
  have hpointer :
      (operationNames lib m name elem).resolveType (list [word "ptr", elem]) = .ok (.ptr t) :=
    congrArg (Except.map Ty.ptr) helemTree
  have harray : declaredName (word "array") .parameter = .ok "array" ∧
      (operationNames lib m name elem).resolveType (word name) = .ok (handleType lib name) :=
      ⟨rfl, hhandle⟩
  have hindex : declaredName (word "index") .parameter = .ok "index" ∧
      (operationNames lib m name elem).resolveType (word "u64") = .ok .u64 := ⟨rfl, rfl⟩
  have hplace : ∀ p ∈ [(("array", handleType lib name), word name), (("index", .u64), word "u64")],
      declaredName (word p.1.1) .parameter = .ok p.1.1 ∧
        (operationNames lib m name elem).resolveType p.2 = .ok p.1.2 := by
    rw [List.forall_mem_cons, List.forall_mem_singleton]
    exact ⟨harray, hindex⟩
  exact .cons
    (definesFunction hname (by decide) []
      (fun _ hp => absurd hp List.not_mem_nil) List.nodup_nil rfl _) <|
    .cons (definesFunction hname (by decide) [(("items", .seq t), list [word "seq", elem])]
      (List.forall_mem_singleton.2 hitems) (List.nodup_singleton _) hhandle _) <|
    .cons (definesFunction hname (by decide) [(("array", handleType lib name), word name)]
      (List.forall_mem_singleton.2 harray) (List.nodup_singleton _) rfl _) <|
    .cons (definesFunction hname (by decide) _ hplace (by simp) hpointer _) <|
    .cons (definesFunction hname (by decide) _ hplace (by simp) helemTree _) .nil

/-- What the bodies of the operations are typed with. -/
theorem scene_operations : ArrayScene ((operationNames lib m name elem).withDefinitions
      (operationForms lib name elem t) (operationGlobals name)) name elem
    ⟨lib.nextId, name⟩ ⟨lib.nextId, name ++ "_block"⟩ ⟨lib.nextId, name ++ "_header"⟩ t := by
  have hbase : ∀ (function : String) {i : Nat} {f : Function},
      (∀ suffix ∈ operationSuffixes, ¬suffix.toList <:+ function.toList) →
        (∀ suffix ∈ wrapperSuffixes, ¬suffix.toList <:+ function.toList) →
          Module.base.functionIndex? function = some i → Module.base.functions[i]? = some f →
            ((operationNames lib m name elem).withDefinitions (operationForms lib name elem t)
              (operationGlobals name)).function? function =
              some (.foreign ⟨0⟩ i, f.params, f.result) := by
    intro function i f hoperations hwrapper hi hf
    refine Names.function?_base (not_mem_suffixed hoperations) (fun dep hdep => ?_) hi hf
    rw [List.mem_singleton.1 hdep, hoffers.functions]
    exact not_mem_suffixed hwrapper
  have hown : ∀ f ∈ Indexed.functions name (handleType lib name) t elem, ∃ callee,
      ((operationNames lib m name elem).withDefinitions (operationForms lib name elem t)
        (operationGlobals name)).function? f.name = some (callee, f.params, f.result) := by
    intro f hf
    have hnodup :
        (((operationNames lib m name elem).withDefinitions (operationForms lib name elem t)
          (operationGlobals name)).signatures.map (·.name)).Nodup := nodup_suffixed
          operationSuffixes (by decide)
    exact Names.function?_of_mem hnodup (List.mem_map_of_mem (List.mem_map_of_mem hf))
  simp only [Indexed.functions, List.forall_mem_cons] at hown
  obtain ⟨hdataOffset, -, -, hindexAddress, -⟩ := hown
  exact {
    self_type := resolveType_handle hname hoffers rfl rfl
    block_type := resolveType_operations hoffers rfl rfl (hname.unreserved _) hoffers.block_fields
    self_fields := hasFields_operations hoffers hoffers.self_fields
    block_fields := hasFields_operations hoffers hoffers.block_fields
    malloc := hbase "malloc" (by decide) (by decide) rfl rfl
    free := hbase "free" (by decide) (by decide) rfl rfl
    header_fields := hasFields_operations hoffers hoffers.header_fields
    elem_type := helem.resolveType _
    cached := by simp [Names.ownGlobal?, Names.withDefinitions]
    dataOffset := hdataOffset
    indexAddress := hindexAddress }

/-- **The unit of the operations is lowered** against such a wrapper. -/
theorem lowers_operations (hstorable : t.isStorable = true) (unit : String) :
    ∃ u, lowerUnit (lib.push m) unit [m] (operationsRoot name elem) = .ok u := by
  have hscene := scene_operations hname hoffers helem
  have hnodup : ((operationForms lib name elem t).map (·.signature.name)).Nodup :=
    nodup_suffixed operationSuffixes (by decide)
  have hglobal :
      (operationsOutline name elem).globals.foldlM (operationNames lib m name elem).global [] =
      .ok (operationGlobals name) := by
    show (declaredName (suffixed name "_cached_offset") .global >>= _) >>= _ = _
    rw [hname.declaredName_suffixed "_cached_offset" (by decide)]
    rfl
  obtain ⟨functions, initialisers, -, -, hlower⟩ := exists_lowerUnit sorts_operations rfl
    (defines_operations hname hoffers helem) hnodup hglobal (hscene.lowers hstorable)
    (List.forall_mem_singleton.2 (Names.exists_lowerGlobal (.of_types (.number (-1))))) unit
  exact ⟨_, hlower⟩

end Operations

end Container

end Kiln
