import Kiln.Proofs.Lowering.Holes
import Kiln.Proofs.Source.Preservation
import Kiln.Proofs.Workspace.Regular
/-!
# No hole ever compiles

A unit that is accepted has no hole anywhere in its tree, and no hole is the name of anything in the
module that it comes to (`holeFree_of_lowerUnit`). So no module that was ever compiled gives a hole
a meaning, and a unit with a hole is refused against whichever of them
(`Workspace.Used.refuses_holes`).
-/

namespace Kiln

/-! ## Definitions -/

mutual

/-- A unit has no hole if none of its definitions has one. -/
theorem Tree.holeFree_of_definitions :
    ∀ {root : Tree}, (∀ t ∈ definitions root, t.HoleFree) → root.HoleFree
  | .leaf a s, h => h _ List.mem_cons_self
  | .node [] s, h => h _ List.mem_cons_self
  | .node (head :: rest) s, h => by
    rw [definitions] at h
    split at h
    · rename_i hdo
      refine holeFree_node.2 (List.forall_mem_cons.2 ⟨holeFree_of_symbol? hdo (by decide), ?_⟩)
      exact holeFree_of_definitionsAll h
    · exact h _ List.mem_cons_self

theorem Tree.holeFree_of_definitionsAll :
    ∀ {ts : List Tree}, (∀ t ∈ definitionsAll ts, t.HoleFree) →
    ∀ t ∈ ts, t.HoleFree
  | [], _ => fun _ ht => by cases ht
  | t :: ts, h => by
    rw [definitionsAll, List.forall_mem_append] at h
    exact List.forall_mem_cons.2 ⟨holeFree_of_definitions h.1, holeFree_of_definitionsAll h.2⟩

end

/-- A tree that defines a struct of the outline, under a name that may be declared. -/
def Outline.Defines (o : Outline) (t : Tree) : Prop :=
  (∃ form ∈ o.structs, ∃ nameTree, t.form? "struct" = some (nameTree :: form.fields) ∧
    declaredName nameTree .struct = .ok form.name) ∨ t ∈ o.functions ∨ t ∈ o.globals

theorem Outline.defines_of_add {o o' : Outline} {t : Tree} (h : o.add t = .ok o') :
    o'.Defines t ∧ ∀ u, o.Defines u → o'.Defines u := by
  have hmore : ∀ {o' : Outline}, o.structs ⊆ o'.structs → o.functions ⊆ o'.functions →
      o.globals ⊆ o'.globals → ∀ u, o.Defines u → o'.Defines u := by
    rintro o' hs hf hg u (⟨form, hform, hu⟩ | hu | hu)
    · exact .inl ⟨form, hs hform, hu⟩
    · exact .inr (.inl (hf hu))
    · exact .inr (.inr (hg hu))
  unfold Outline.add at h
  split at h
  · cases h
  · rename_i _ nameTree fields hform
    obtain ⟨name, hname, h⟩ := ok_of_bind h
    split at h
    · cases h
    · cases h
      refine ⟨.inl ⟨⟨name, fields, t.span⟩, List.mem_append_right _ List.mem_cons_self, nameTree,
        hform, hname⟩, ?_⟩
      exact hmore (List.subset_append_left _ _) (List.Subset.refl _) (List.Subset.refl _)
  · cases h
    exact ⟨.inr (.inl (List.mem_append_right _ List.mem_cons_self)),
      hmore (List.Subset.refl _) (List.subset_append_left _ _) (List.Subset.refl _)⟩
  · cases h
    exact ⟨.inr (.inr (List.mem_append_right _ List.mem_cons_self)),
      hmore (List.Subset.refl _) (List.Subset.refl _) (List.subset_append_left _ _)⟩
  · cases h

/-- **Every definition of a unit is sorted**: there is no other way to be accepted. -/
theorem Outline.defines_of_ofUnit {root : Tree} {o : Outline} (h : Outline.ofUnit root = .ok o) :
    ∀ t ∈ definitions root, o.Defines t := by
  have hfold : ∀ {ts : List Tree} {o o' : Outline}, ts.foldlM Outline.add o = .ok o' →
      (∀ t ∈ ts, o'.Defines t) ∧ ∀ u, o.Defines u → o'.Defines u := by
    intro ts
    induction ts with
    | nil =>
      intro o o' h
      cases h
      exact ⟨fun _ ht => (by cases ht), fun _ => id⟩
    | cons t ts ih =>
      intro o o' h
      rw [List.foldlM_cons] at h
      obtain ⟨o₁, hadd, h⟩ := ok_of_bind h
      obtain ⟨ht, hkept⟩ := defines_of_add hadd
      obtain ⟨hts, hkept'⟩ := ih h
      exact ⟨List.forall_mem_cons.2 ⟨hkept' t ht, hts⟩, fun u hu => hkept' u (hkept u hu)⟩
  exact (hfold h).1

/-- The structs of a unit have no holes for names. -/
theorem Outline.holeFree_structs {root : Tree} {o : Outline} (h : Outline.ofUnit root = .ok o) :
    ∀ form ∈ o.structs, HoleFree form.name := by
  refine foldlM_keeps (I := fun o : Outline => ∀ form ∈ o.structs, HoleFree form.name)
    (fun {o t o'} ho hadd => ?_) (fun _ hform => by cases hform) h
  unfold Outline.add at hadd
  split at hadd
  · cases hadd
  · obtain ⟨name, hname, hadd⟩ := ok_of_bind hadd
    split at hadd
    · cases hadd
    · cases hadd
      exact List.forall_mem_append.2
        ⟨ho, List.forall_mem_singleton.2 (holeFree_of_declaredName hname)⟩
  · cases hadd
    exact ho
  · cases hadd
    exact ho
  · cases hadd

/-! ## Structs -/

/-- No field of the structs has a hole for its name. -/
def FieldsHoleFree (structs : List StructDef) : Prop :=
  ∀ d ∈ structs, ∀ f ∈ d.layout.fields, HoleFree f.name

section Structs

variable {names : Names} {forms : List StructForm}

theorem holeFree_ofFields? {Γ : Layouts} {fields : List (String × Ty)} {l : Layout}
    (hl : Layout.ofFields? Γ fields = some l) (h : ∀ p ∈ fields, HoleFree p.1) :
    ∀ f ∈ l.fields, HoleFree f.name := by
  intro f hf
  have hnamed := List.mem_map_of_mem (f := fun f : Field => (f.name, f.type)) hf
  rw [Layout.named_ofFields? hl] at hnamed
  exact h _ hnamed

theorem layOutField_holeFree
    {lay : StructForm → List StructDef → Except LoweringError (List StructDef)}
    (hlay : ∀ {form done done'}, FieldsHoleFree done → lay form done = .ok done' →
      FieldsHoleFree done')
    {acc acc' : List (String × Ty) × List StructDef} {tree : Tree}
    (hacc : (∀ p ∈ acc.1, HoleFree p.1) ∧ FieldsHoleFree acc.2)
    (h : layOutField names forms lay acc tree = .ok acc') :
    (∀ p ∈ acc'.1, HoleFree p.1) ∧ FieldsHoleFree acc'.2 := by
  obtain ⟨⟨nameTree, typeTree⟩, hpair, h⟩ := ok_of_bind h
  obtain ⟨name, hname, h⟩ := ok_of_bind h
  obtain ⟨type, htype, h⟩ := ok_of_bind h
  obtain ⟨done, hdone, h⟩ : ∃ done, FieldsHoleFree done ∧
      (if !type.isStorable then refuse (.unstorableField name type) typeTree.span
        else if acc.1.any (·.1 == name) then refuse (.declaredTwice .field name) tree.span
        else pure (acc.1 ++ [(name, type)], done) :
          Except LoweringError (List (String × Ty) × List StructDef)) = .ok acc' := by
    dsimp only at h
    split at h
    · obtain ⟨done, hdone, h⟩ := ok_of_bind h
      exact ⟨done, hlay hacc.2 hdone, h⟩
    · exact ⟨acc.2, hacc.2, h⟩
  split at h
  · cases h
  · split at h
    · cases h
    · cases h
      refine ⟨List.forall_mem_append.2 ⟨hacc.1, List.forall_mem_singleton.2 ?_⟩, hdone⟩
      exact holeFree_of_declaredName hname

theorem layOut_holeFree :
    ∀ {depth : Nat} {around : List String} {form : StructForm} {done done' : List StructDef},
    FieldsHoleFree done → layOut names forms depth around form done = .ok done' →
      FieldsHoleFree done'
  | 0, _, _, _, _, hdone, h => by
    cases h
    exact hdone
  | depth + 1, around, form, done, done', hdone, h => by
    rw [layOut] at h
    split at h
    · cases h
      exact hdone
    · split at h
      · cases h
      · obtain ⟨⟨fields, done₁⟩, hfields, h⟩ := ok_of_bind h
        dsimp only at h
        split at h
        case h_2 => cases h
        rename_i hlayout
        cases h
        obtain ⟨hnamed, hdone₁⟩ := foldlM_keeps
          (I := fun acc : List (String × Ty) × List StructDef => (∀ p ∈ acc.1, HoleFree p.1) ∧
            FieldsHoleFree acc.2)
          (fun hacc hstep => layOutField_holeFree layOut_holeFree hacc hstep)
          ⟨fun _ hp => (by cases hp), hdone⟩ hfields
        exact List.forall_mem_append.2
          ⟨hdone₁, List.forall_mem_singleton.2 (holeFree_ofFields? hlayout hnamed)⟩

theorem layOutAll_holeFree {structs : List StructDef} (h : layOutAll names forms = .ok structs) :
    FieldsHoleFree structs :=
  foldlM_keeps (fun hdone hstep => layOut_holeFree hdone hstep) (fun _ hd => by cases hd) h

/-- **Structs that are laid out have no hole in their trees.** -/
theorem Tree.holeFree_of_layOutAll (hnames : names.Outlines forms)
    (hnodup : (forms.map (·.name)).Nodup)
    (htype : ∀ {name : String} {t : Ty}, names.type? name = some t → Kiln.HoleFree name)
    {structs : List StructDef} (h : layOutAll names forms = .ok structs) :
    ∀ form ∈ forms, ∀ t ∈ form.fields, t.HoleFree := by
  intro form hform t ht
  obtain ⟨hlaid, hnamed⟩ := Names.layOutAll_laidOut h
  obtain ⟨d, hd, hdname⟩ := List.mem_map.1 (hnamed form hform)
  obtain ⟨before, form', fields, hends⟩ := hlaid.ends hnames d hd
  obtain rfl : form' = form :=
    List.inj_on_of_nodup_map hnodup hends.mem hform (hends.name.symm.trans hdname)
  obtain ⟨i, hi⟩ := List.mem_iff_getElem?.1 ht
  obtain ⟨field, hfield, hof⟩ := getElem?_of_forall₂ hends.holds hi
  obtain ⟨nameTree, typeTree, s, rfl, hsymbol, hresolve⟩ := hof.shape
  -- the field is one of the layout, under that name
  have hmem : field ∈ d.layout.fields.map fun f => (f.name, f.type) := by
    rw [Layout.named_ofFields? hends.layout]
    exact List.mem_of_getElem? hfield
  obtain ⟨f, hf, rfl⟩ := List.mem_map.1 hmem
  have hname := layOutAll_holeFree h d hd f hf
  exact holeFree_node.2 (List.forall_mem_cons.2 ⟨holeFree_of_symbol? hsymbol hname,
    List.forall_mem_singleton.2 (holeFree_of_resolveType htype hresolve)⟩)

end Structs

/-! ## Functions and globals -/

section Signatures

variable {names : Names}
  (htype : ∀ {name : String} {t : Ty}, names.type? name = some t → HoleFree name)

include htype

theorem holeFree_of_params {ts : List Tree} {params : List Param}
    (h : ts.foldlM names.param [] = .ok params) :
    (∀ t ∈ ts, t.HoleFree) ∧ ∀ p ∈ params, HoleFree p.1 := by
  have hstep :
      ∀ {before : List Param} {t : Tree} {after : List Param}, names.param before t = .ok after →
      ∃ p, after = before ++ [p] ∧ t.HoleFree ∧ HoleFree p.1 := by
    intro before t after h
    obtain ⟨⟨nameTree, typeTree⟩, hpair, h⟩ := ok_of_bind h
    obtain ⟨s, rfl⟩ := pairOf_eq hpair
    obtain ⟨name, hname, h⟩ := ok_of_bind h
    split at h
    · cases h
    · obtain ⟨type, hresolve, h⟩ := ok_of_bind h
      cases h
      refine ⟨_, rfl,
        Tree.holeFree_node.2 (List.forall_mem_cons.2 ⟨Tree.holeFree_of_declaredName hname, ?_⟩),
        holeFree_of_declaredName hname⟩
      exact List.forall_mem_singleton.2 (Tree.holeFree_of_resolveType htype hresolve)
  obtain ⟨ps, rfl, hall⟩ := foldlM_append hstep h
  refine ⟨fun t ht => ?_, fun p hp => ?_⟩
  · obtain ⟨i, hi⟩ := List.mem_iff_getElem?.1 ht
    obtain ⟨p, -, -, ht, -⟩ := getElem?_of_forall₂ hall hi
    exact ht
  · obtain ⟨t, -, -, -, hp⟩ := exists_of_forall₂ hall hp
    exact hp

/-- A function whose body has no hole has none in its tree. -/
structure FunctionForm.Watches (f : FunctionForm) (t : Tree) : Prop where
  tree : (∀ u ∈ f.body, u.HoleFree) → t.HoleFree
  name : HoleFree f.signature.name
  params : ∀ p ∈ f.signature.params, HoleFree p.1

theorem watches_of_function {before after : List FunctionForm} {t : Tree}
    (h : names.function before t = .ok after) :
    ∃ f, after = before ++ [f] ∧ f.Watches t := by
  unfold Names.function at h
  split at h
  · rename_i nameTree paramsTree resultTree body hform
    obtain ⟨name, hname, h⟩ := ok_of_bind h
    split at h
    · cases h
    · split at h
      · rename_i paramTrees hitems
        obtain ⟨params, hparams, h⟩ := ok_of_bind h
        obtain ⟨result, hresult, h⟩ := ok_of_bind h
        cases h
        obtain ⟨htrees, hnamed⟩ := holeFree_of_params htype hparams
        refine ⟨_, rfl, fun hbody => ?_, holeFree_of_declaredName hname, hnamed⟩
        have hlist : paramsTree.HoleFree := by
          rcases paramsTree with ⟨a, s⟩ | ⟨items, s⟩
          · cases hitems
          · cases hitems
            exact Tree.holeFree_node.2 htrees
        refine Tree.holeFree_of_form? hform (by decide) (List.forall_mem_cons.2
          ⟨Tree.holeFree_of_declaredName hname,
            List.forall_mem_cons.2 ⟨hlist, List.forall_mem_cons.2 ⟨?_, hbody⟩⟩⟩)
        exact Tree.holeFree_of_resolveType htype hresult
      · cases h
  · cases h

/-- A global whose initialiser has no hole has none in its tree. -/
structure GlobalForm.Watches (g : GlobalForm) (t : Tree) : Prop where
  tree : g.init.HoleFree → t.HoleFree
  name : HoleFree g.global.name

theorem watches_of_global {before after : List GlobalForm} {t : Tree}
    (h : names.global before t = .ok after) :
    ∃ g, after = before ++ [g] ∧ g.Watches t := by
  unfold Names.global at h
  split at h
  · rename_i nameTree typeTree init hform
    obtain ⟨name, hname, h⟩ := ok_of_bind h
    split at h
    · cases h
    · obtain ⟨type, hresolve, h⟩ := ok_of_bind h
      cases h
      refine ⟨_, rfl, fun hinit => ?_, holeFree_of_declaredName hname⟩
      refine Tree.holeFree_of_form? hform (by decide) (List.forall_mem_cons.2
        ⟨Tree.holeFree_of_declaredName hname,
          List.forall_mem_cons.2 ⟨?_, List.forall_mem_singleton.2 hinit⟩⟩)
      exact Tree.holeFree_of_resolveType htype hresolve
  · cases h

end Signatures

theorem holeFree_empty : Locals.empty.HoleFree := fun _ hv => by cases hv

theorem holeFree_declareAll {params : List Param} (h : ∀ p ∈ params, HoleFree p.1) :
    ∀ {ls : Locals}, ls.HoleFree →
    (params.foldl (fun ls p => ls.declare p.1 p.2) ls).HoleFree := by
  induction params with
  | nil => exact id
  | cons p params ih =>
    obtain ⟨hp, hparams⟩ := List.forall_mem_cons.1 h
    exact fun hls => ih hparams (hls.declare hp)

section Bodies

variable {names : Names} (hnames : names.HoleFree)

include hnames

/-- A body that is lowered has no hole. -/
theorem holeFree_of_lowerFunction {f : FunctionForm} {g : Function}
    (hparams : ∀ p ∈ f.signature.params, HoleFree p.1) (h : names.lowerFunction f = .ok g) :
    ∀ t ∈ f.body, t.HoleFree := by
  obtain ⟨⟨⟨code, type⟩, ls⟩, hrun, -⟩ := ok_of_bind h
  have hbody : ∀ o ∈ f.body.map (Lowering.operand names), Lowering.Watchful o := by
    intro o ho
    obtain ⟨t, ht, rfl⟩ := List.mem_map.1 ho
    exact Lowering.operand_ensures hnames t
  obtain ⟨-, hall⟩ :=
    Lowering.sequence_ensures hbody _ _ _ (holeFree_declareAll hparams holeFree_empty) hrun
  exact fun t ht => hall _ (List.mem_map_of_mem ht)

/-- An initialiser that is lowered has no hole. -/
theorem holeFree_of_lowerGlobal {g : GlobalForm} {init : Initialiser}
    (h : names.lowerGlobal g = .ok init) :
    g.init.HoleFree := by
  obtain ⟨⟨⟨code, type⟩, ls⟩, hrun, -⟩ := ok_of_bind h
  exact (Lowering.operand_ensures hnames g.init _ _ _ holeFree_empty hrun).2

end Bodies

/-! ## Modules -/

/-- Nothing in the module has a hole for its name. -/
structure Module.HoleFree (m : Module) : Prop where
  functions : ∀ f ∈ m.functions, Kiln.HoleFree f.name
  structs : ∀ d ∈ m.structs, Kiln.HoleFree d.name
  fields : FieldsHoleFree m.structs
  globals : ∀ g ∈ m.globals, Kiln.HoleFree g.name

theorem Module.holeFree_base : Module.base.HoleFree where
  functions := by decide
  structs := fun _ hd => by cases hd
  fields := fun _ hd => by cases hd
  globals := fun _ hg => by cases hg

namespace Module.HoleFree

variable {m : Module} {name : String}

theorem structType? (h : m.HoleFree) {t : Ty} (ht : m.structType? name = some t) :
    Kiln.HoleFree name := by
  obtain ⟨l, hl, -⟩ := Option.map_eq_some_iff.1 ht
  obtain ⟨d, hd, -⟩ := Option.map_eq_some_iff.1 hl
  have hname : d.name = name := of_decide_eq_true (List.find?_some hd :)
  exact hname ▸ h.structs d (List.mem_of_find?_eq_some hd)

theorem functionIndex? (h : m.HoleFree) {i : Nat} (hi : m.functionIndex? name = some i) :
    Kiln.HoleFree name := by
  obtain ⟨hlt, hname, -⟩ := List.findIdx?_eq_some_iff_getElem.1 hi
  exact of_decide_eq_true hname ▸ h.functions _ (List.getElem_mem hlt)

theorem globalIndex? (h : m.HoleFree) {i : Nat} (hi : m.globalIndex? name = some i) :
    Kiln.HoleFree name := by
  obtain ⟨hlt, hname, -⟩ := List.findIdx?_eq_some_iff_getElem.1 hi
  exact of_decide_eq_true hname ▸ h.globals _ (List.getElem_mem hlt)

end Module.HoleFree

/-- In no module of the library a hole has a meaning. -/
def Library.HoleFree (lib : Library) : Prop := ∀ id m, lib.find? id = some m → m.HoleFree

theorem Library.HoleFree.push {lib : Library} {m : Module} (h : lib.HoleFree) (hm : m.HoleFree) :
    (lib.push m).HoleFree := by
  intro id found hfound
  by_cases hid : id = lib.nextId
  · rw [hid, Source.find?_push_nextId] at hfound
    exact Option.some.inj hfound ▸ hm
  · rw [Source.find?_push_of_ne hid] at hfound
    exact h id found hfound

theorem Library.HoleFree.field {lib : Library} (h : lib.HoleFree) {ref : StructRef} {l : Layout}
    (hl : lib.layouts.find? ref = some l) : ∀ f ∈ l.fields, Kiln.HoleFree f.name := by
  obtain ⟨m, hm, hlayout⟩ := Option.bind_eq_some_iff.1 hl
  obtain ⟨d, hd, rfl⟩ := Option.map_eq_some_iff.1 hlayout
  exact (h _ m hm).fields d (List.mem_of_find?_eq_some hd)

section Names

variable {names : Names} (hdeps : ∀ d ∈ names.deps, d.HoleFree)

include hdeps

/-- A type that a name means has no hole in its name. -/
theorem holeFree_of_type? (hstructs : ∀ name ∈ names.structs, HoleFree name)
    {name : String} {t : Ty} (h : names.type? name = some t) : HoleFree name := by
  rw [Names.type?] at h
  split at h
  · rename_i found hprimitive
    unfold Ty.primitive? at hprimitive
    split at hprimitive
    case h_7 => cases hprimitive
    all_goals decide
  · split at h
    · rename_i hown
      exact hstructs name (List.contains_iff_mem.1 hown)
    · obtain ⟨d, hd, hfound⟩ := List.exists_of_findSome?_eq_some h
      exact (hdeps d hd).structType? hfound

/-- Where nothing that a unit defines or sees has a hole for its name, no hole means anything. -/
theorem holeFree_names (hstructs : ∀ name ∈ names.structs, HoleFree name)
    (hsignatures : ∀ f ∈ names.signatures, HoleFree f.name)
    (hglobals : ∀ g ∈ names.globals, HoleFree g.name)
    (hfields : ∀ {ref : StructRef} {l : Layout}, names.layouts.find? ref = some l →
      ∀ f ∈ l.fields, HoleFree f.name) :
    names.HoleFree where
  type := holeFree_of_type? hdeps hstructs
  ownGlobal := by
    intro name g h
    obtain ⟨i, hi, -⟩ := Option.bind_eq_some_iff.1 h
    obtain ⟨hlt, hname, -⟩ := List.findIdx?_eq_some_iff_getElem.1 hi
    exact of_decide_eq_true hname ▸ hglobals _ (List.getElem_mem hlt)
  foreignGlobal := by
    intro name g h
    obtain ⟨d, hd, hfound⟩ := List.exists_of_findSome?_eq_some h
    obtain ⟨i, hi, -⟩ := Option.bind_eq_some_iff.1 hfound
    exact (hdeps d hd).globalIndex? hi
  function := by
    intro name f h
    rw [Names.function?] at h
    split at h
    · rename_i i hi
      obtain ⟨hlt, hname, -⟩ := List.findIdx?_eq_some_iff_getElem.1 hi
      exact of_decide_eq_true hname ▸ hsignatures _ (List.getElem_mem hlt)
    · obtain ⟨d, hd, hfound⟩ := List.exists_of_findSome?_eq_some h
      obtain ⟨i, hi, -⟩ := Option.bind_eq_some_iff.1 hfound
      rcases List.mem_append.1 hd with hd | hd
      · exact (hdeps d hd).functionIndex? hi
      · rw [List.mem_singleton.1 hd] at hi
        exact Module.holeFree_base.functionIndex? hi
  field := hfields

end Names

/-! ## Units -/

/-- **A unit that is accepted has no hole in it**, and comes to a module that has no hole for a
name. -/
theorem holeFree_of_lowerUnit {lib : Library} {name : String} {deps : List Module} {root : Tree}
    {u : LoweredUnit} (hlib : lib.HoleFree) (hdeps : ∀ d ∈ deps, lib.find? d.id = some d)
    (h : lowerUnit lib name deps root = .ok u) :
    root.HoleFree ∧ u.module.HoleFree := by
  obtain ⟨o, ho, h⟩ := ok_of_bind h
  obtain ⟨structs, hstructs, h⟩ := ok_of_bind h
  obtain ⟨forms, hforms, h⟩ := ok_of_bind h
  obtain ⟨globals, hglobals, h⟩ := ok_of_bind h
  obtain ⟨functions, hfunctions, h⟩ := ok_of_bind h
  obtain ⟨initialisers, hinitialisers, h⟩ := ok_of_bind h
  cases h
  have hfunctions := forall₂_of_mapM hfunctions
  have hinitialisers := forall₂_of_mapM hinitialisers
  let plain : Names := ⟨lib.nextId, deps, lib.layouts, o.structs.map (·.name), [], []⟩
  have hdepsFree : ∀ d ∈ deps, d.HoleFree := fun d hd => hlib d.id d (hdeps d hd)
  have hnamed : ∀ name ∈ o.structs.map (·.name), HoleFree name :=
    List.forall_mem_map.2 (Outline.holeFree_structs ho)
  have htype : ∀ {name : String} {t : Ty}, plain.type? name = some t → HoleFree name :=
    @holeFree_of_type? plain hdepsFree hnamed
  have houtlines : plain.Outlines o.structs := ⟨rfl, fun d hd => Library.ne_nextId (hdeps d hd)⟩
  have hfields :=
    Tree.holeFree_of_layOutAll houtlines (Source.Scenery.named_ofUnit ho).1 htype hstructs
  -- what functions and globals are made of
  have htype' :
      ∀ {name : String} {t : Ty}, (plain.withStructs structs).type? name = some t →
        HoleFree name := htype
  obtain ⟨_, rfl, hforms⟩ := foldlM_append (fun h => watches_of_function htype' h) hforms
  obtain ⟨_, rfl, hglobals⟩ := foldlM_append (fun h => watches_of_global htype' h) hglobals
  have hsignatures : ∀ f ∈ forms, HoleFree f.signature.name := fun f hf => by
    obtain ⟨t, -, -, hwatches⟩ := exists_of_forall₂ hforms hf
    exact hwatches.name
  have hglobalNames : ∀ g ∈ globals, HoleFree g.global.name := fun g hg => by
    obtain ⟨t, -, -, hwatches⟩ := exists_of_forall₂ hglobals hg
    exact hwatches.name
  let m : Module := ⟨lib.nextId, name, deps.map (·.id), functions, structs, globals.map (·.global)⟩
  have hmodule : m.HoleFree := by
    refine ⟨fun g hg => ?_,
      fun d hd => ?_, layOutAll_holeFree hstructs, List.forall_mem_map.2 hglobalNames⟩
    · obtain ⟨f, hf, hlower⟩ := exists_of_forall₂ hfunctions hg
      have hsame : g.name = f.signature.name :=
        congrArg Signature.name (Source.lowerFunction_signature hlower)
      exact hsame ▸ hsignatures f hf
    · obtain ⟨before, form, fields, hends⟩ :=
        (Names.layOutAll_laidOut hstructs).1.ends houtlines d hd
      exact hends.name ▸ Outline.holeFree_structs ho form hends.mem
  refine ⟨Tree.holeFree_of_definitions fun t ht => ?_, hmodule⟩
  let names : Names :=
    { plain.withStructs structs with
      signatures := forms.map (·.signature)
      globals := globals.map (·.global) }
  have hlayouts : names.layouts = (lib.push m).layouts := Source.layouts_push plain rfl rfl rfl
  have hnames : names.HoleFree := by
    refine @holeFree_names names hdepsFree hnamed (List.forall_mem_map.2 hsignatures)
      (List.forall_mem_map.2 hglobalNames) fun hl => ?_
    rw [hlayouts] at hl
    exact (hlib.push hmodule).field hl
  rcases Outline.defines_of_ofUnit ho t ht with ⟨form, hform, nameTree, hshape, hname⟩ | ht | ht
  · exact Tree.holeFree_of_form? hshape (by decide)
      (List.forall_mem_cons.2 ⟨Tree.holeFree_of_declaredName hname, hfields form hform⟩)
  · obtain ⟨i, hi⟩ := List.mem_iff_getElem?.1 ht
    obtain ⟨f, hf, -, hwatches⟩ := getElem?_of_forall₂ hforms hi
    obtain ⟨g, -, hlower⟩ := getElem?_of_forall₂ hfunctions hf
    exact hwatches.tree (holeFree_of_lowerFunction hnames hwatches.params hlower)
  · obtain ⟨i, hi⟩ := List.mem_iff_getElem?.1 ht
    obtain ⟨g, hg, -, hwatches⟩ := getElem?_of_forall₂ hglobals hi
    obtain ⟨init, -, hlower⟩ := getElem?_of_forall₂ hinitialisers hg
    exact hwatches.tree (holeFree_of_lowerGlobal hnames hlower)

/-! ## Workspaces -/

open Work

variable {w : Workspace}

/-- In a workspace that comes about by compiling, no hole has a meaning. -/
theorem Workspace.Used.holeFree (h : w.Used) : w.library.HoleFree := by
  refine h.library_induction ?_
    fun _ hlib hdeps hlower => hlib.push (holeFree_of_lowerUnit hlib hdeps hlower).2
  intro id m hm
  obtain ⟨hlt, rfl⟩ := Array.getElem?_eq_some_iff.1 hm
  obtain hzero : id.index = 0 := Nat.lt_one_iff.1 hlt
  have hbase : Library.initial.modules[id.index] = Module.base := by
    simp only [hzero]
    rfl
  rw [hbase]
  exact Module.holeFree_base

/-- **No hole ever compiles.** A unit that has a symbol with a `$` anywhere in its tree is refused
by lowering, whatever modules it is compiled against and however these came about, and nothing
changes; unless the host gives up before, on a struct that takes more than can be counted. -/
theorem Workspace.Used.refuses_holes (h : w.Used) {unit : SourceUnit} {deps : List Module}
    {f : Fragment} (hdeps : ∀ d ∈ deps, w.library.find? d.id = some d) (hread : unit.read = .ok f)
    (hhole : ∃ p ∈ f.root.symbols, '$' ∈ p.1.toList) :
    w.Refuses unit deps f.root := by
  cases hlower : lowerUnit w.library unit.name deps f.root with
  | ok u =>
    obtain ⟨p, hp, hdollar⟩ := hhole
    exact absurd hdollar ((holeFree_of_lowerUnit h.holeFree hdeps hlower).1 p hp)
  | error e => exact h.refuses hdeps hread hlower

/-- `(fun strike () i64 (hit) $again)` -/
def againUnit : Tree :=
  .list [.word "fun", .word "strike", .list [], .word "i64", .list [.word "hit"], .word "$again"]

/-- Against a module that has what else the unit asks for. There is no struct in the unit, so it is
refused. -/
theorem Workspace.Used.refuses_holes_again : ∃ m w, Workspace.afterUnit? hitsUnit = some (m, w) ∧
    ∃ e cause, (Work.compile (.fragment "strike" ⟨againUnit, ⟨"strike", ""⟩⟩) [m]).run w =
      .ok (.error e) w ∧
      e.fault = .lowering cause := by
  obtain ⟨m, w, hafter, -⟩ :=
    Workspace.exists_afterUnit hitsUnit (fun _ _ => true) (by decide +kernel)
  have hm : w.library.find? m.id = some m := by
    obtain ⟨hid, -, hlibrary⟩ := Work.module_of_compile (Workspace.afterUnit?_eq_some hafter)
    rw [hlibrary, hid]
    exact Source.find?_push_nextId _ _
  have hrefused : w.Refuses (.fragment "strike" ⟨againUnit, ⟨"strike", ""⟩⟩) [m] againUnit :=
    (Reached.afterUnit hafter).used.refuses_holes (f := ⟨againUnit, ⟨"strike", ""⟩⟩)
      (fun d hd => List.mem_singleton.1 hd ▸ hm) rfl ⟨("$again", default), by decide, by decide⟩
  rcases hrefused with hrefused | ⟨-, struct, done, form, fields, -, hform, -⟩
  · exact ⟨m, w, hafter, hrefused⟩
  · cases hform

end Kiln
