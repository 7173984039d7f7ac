import Kiln.Proofs.Lowering.Inversion
import Kiln.Proofs.Typing.Packing
import Mathlib.Data.List.Nodup
import Mathlib.Data.List.Perm.Subperm
/-!
# Structs are laid out after what they hold

The structs of a unit that is accepted come in an order in which each stands behind the
structs it holds by value (`LaidOut`, `layOutAll_laidOut`): no struct is reached from inside
itself, and the bound on how deep structs lie inside each other is never met. The sizes a
struct is laid out with are therefore those its fields have in the end (`LaidOut.layout`).
-/

namespace Kiln

variable {names : Names} {forms : List StructForm}

/-- A field of a struct, where the structs that are `done` contain the one it holds. -/
structure Names.FieldOf (names : Names) (forms : List StructForm) (done : List StructDef)
    (tree : Tree) (field : String × Ty) : Prop where
  shape : ∃ name type s, tree = .node [name, type] s ∧ name.symbol? = some field.1 ∧
    names.resolveType type = .ok field.2
  storable : field.2.isStorable = true
  held : ∀ inner, names.ownStruct? forms field.2 = some inner → inner.name ∈ done.map (·.name)

/-- Structs laid out one after the other, each behind those it holds. -/
inductive Names.LaidOut (names : Names) (forms : List StructForm) : List StructDef → Prop
  | nil : LaidOut names forms []
  | snoc {done : List StructDef} {form : StructForm} {fields : List (String × Ty)}
      {layout : Layout} :
      LaidOut names forms done → form ∈ forms → form.name ∉ done.map (·.name) →
      List.Forall₂ (names.FieldOf forms done) form.fields fields →
      Layout.ofFields? (names.withStructs done).layouts fields = some layout →
      LaidOut names forms (done ++ [⟨form.name, layout⟩])

/-- The size of a type depends on the layout alone of the struct that it is. -/
theorem Ty.size_eq_of_find? {Γ Γ' : Layouts} {t : Ty}
    (h : ∀ ref, t = .struct ref → Γ'.find? ref = Γ.find? ref) :
    t.size Γ' = t.size Γ ∧ t.align Γ' = t.align Γ := by
  rcases t with _ | _ | _ | _ | _ | _ | target | elem | ref
  case struct => rw [Ty.size, Ty.size, Ty.align, Ty.align, h ref rfl]; exact ⟨rfl, rfl⟩
  all_goals exact ⟨rfl, rfl⟩

namespace Names

theorem FieldOf.mono {done more : List StructDef} {tree : Tree} {field : String × Ty}
    (h : names.FieldOf forms done tree field) (hle : done <+: more) :
    names.FieldOf forms more tree field :=
  ⟨h.shape, h.storable, fun inner hinner =>
    List.map_subset _ hle.subset (h.held inner hinner)⟩

/-! ## One struct after the other -/

/-- What laying out one struct, inside of others, does to those that are done. -/
def Extends (names : Names) (forms : List StructForm) (around : List String) (form : StructForm)
    (done done' : List StructDef) : Prop :=
  names.LaidOut forms done' ∧ done <+: done' ∧ form.name ∈ done'.map (·.name) ∧
    ∀ d ∈ done', d ∈ done ∨ d.name ∉ around

variable {around : List String}
  {lay : StructForm → List StructDef → Except LoweringError (List StructDef)}
  (hlay : ∀ {inner done done'}, inner ∈ forms → names.LaidOut forms done →
    lay inner done = .ok done' → Extends names forms around inner done done')

include hlay

theorem layOutField_sound {acc acc' : List (String × Ty) × List StructDef} {tree : Tree}
    (hdone : names.LaidOut forms acc.2) (h : layOutField names forms lay acc tree = .ok acc') :
    ∃ field, acc'.1 = acc.1 ++ [field] ∧ names.FieldOf forms acc'.2 tree field ∧
      names.LaidOut forms acc'.2 ∧ acc.2 <+: acc'.2 ∧
        ∀ d ∈ acc'.2, d ∈ acc.2 ∨ d.name ∉ around := by
  obtain ⟨⟨nameTree, typeTree⟩, hpair, h⟩ := ok_of_bind h
  obtain ⟨s, rfl⟩ := pairOf_eq hpair
  obtain ⟨name, hname, h⟩ := ok_of_bind h
  obtain ⟨type, htype, h⟩ := ok_of_bind h
  -- what is checked of the field itself, once the struct it holds is done
  have hfinish : ∀ {done : List StructDef},
      (if !type.isStorable then refuse (.unstorableField name type) typeTree.span
        else if acc.1.any (·.1 == name) then
          refuse (.declaredTwice .field name) (Tree.node [nameTree, typeTree] s).span
        else pure (acc.1 ++ [(name, type)], done) :
          Except LoweringError (List (String × Ty) × List StructDef)) = .ok acc' →
      type.isStorable = true ∧ acc' = (acc.1 ++ [(name, type)], done) := by
    intro done hfinish
    split at hfinish
    · cases hfinish
    · rename_i hstorable
      split at hfinish
      · cases hfinish
      · cases hfinish
        exact ⟨by simpa using hstorable, rfl⟩
  have hshape : ∃ n t s', (Tree.node [nameTree, typeTree] s) = .node [n, t] s' ∧
      n.symbol? = some name ∧ names.resolveType t = .ok type :=
    ⟨nameTree, typeTree, s, rfl, (declaredName_eq hname).1, htype⟩
  dsimp only at h
  split at h
  · rename_i inner hinner
    obtain ⟨done, hdone', h⟩ := ok_of_bind h
    obtain ⟨hstorable, rfl⟩ := hfinish h
    have hmem : inner ∈ forms := by
      unfold ownStruct? at hinner
      split at hinner
      · split at hinner
        · exact List.mem_of_find?_eq_some hinner
        · cases hinner
      · cases hinner
    obtain ⟨hlaid, hle, hin, hnew⟩ := hlay hmem hdone hdone'
    refine ⟨_, rfl, ⟨hshape, hstorable, fun other hother => ?_⟩, hlaid, hle, hnew⟩
    cases hinner.symm.trans hother
    exact hin
  · rename_i hinner
    obtain ⟨hstorable, rfl⟩ := hfinish h
    refine ⟨_, rfl, ⟨hshape, hstorable, fun other hother => ?_⟩, hdone, List.prefix_rfl,
      fun d hd => .inl hd⟩
    cases hinner.symm.trans hother

/-- The fields of a struct, one after the other. -/
theorem layOutFields_sound {trees : List Tree} : ∀ {before : List Tree}
    {acc acc' : List (String × Ty) × List StructDef}, names.LaidOut forms acc.2 →
      List.Forall₂ (names.FieldOf forms acc.2) before acc.1 →
        trees.foldlM (layOutField names forms lay) acc = .ok acc' →
          List.Forall₂ (names.FieldOf forms acc'.2) (before ++ trees) acc'.1 ∧
            names.LaidOut forms acc'.2 ∧ acc.2 <+: acc'.2 ∧
              ∀ d ∈ acc'.2, d ∈ acc.2 ∨ d.name ∉ around := by
  induction trees with
  | nil =>
    intro before acc acc' hdone hbefore h
    cases h
    rw [List.append_nil]
    exact ⟨hbefore, hdone, List.prefix_rfl, fun d hd => .inl hd⟩
  | cons tree trees ih =>
    intro before acc acc' hdone hbefore h
    rw [List.foldlM_cons] at h
    obtain ⟨acc₁, hstep, h⟩ := ok_of_bind h
    obtain ⟨field, hacc, hfield, hdone₁, hle, hnew⟩ := layOutField_sound hlay hdone hstep
    have hbefore₁ : List.Forall₂ (names.FieldOf forms acc₁.2) (before ++ [tree]) acc₁.1 := by
      rw [hacc]
      exact List.rel_append (hbefore.imp fun _ _ hf => hf.mono hle) (.cons hfield .nil)
    obtain ⟨hall, hdone', hle', hnew'⟩ := ih hdone₁ hbefore₁ h
    rw [List.append_assoc] at hall
    exact ⟨hall, hdone', hle.trans hle', fun d hd => (hnew' d hd).elim (hnew d) .inr⟩

omit hlay

/-- **Laying out a struct keeps the order**, and adds none of the structs it lies in. -/
theorem layOut_sound : ∀ {depth : Nat} {around : List String} {form : StructForm}
    {done done' : List StructDef}, around.Nodup → around ⊆ forms.map (·.name) →
      around.length + depth = forms.length + 1 → form ∈ forms → names.LaidOut forms done →
        layOut names forms depth around form done = .ok done' →
          Extends names forms around form done done'
  | 0, around, form, done, done', hnodup, hsub, hdepth, hform, hdone, h => by
    -- more structs lie around this one than there are
    have hle := (hnodup.subperm hsub).length_le
    rw [List.length_map] at hle
    omega
  | depth + 1, around, form, done, done', hnodup, hsub, hdepth, hform, hdone, h => by
    rw [layOut] at h
    split at h
    · rename_i hany
      cases h
      obtain ⟨d, hd, hname⟩ := List.any_eq_true.1 hany
      exact ⟨hdone, List.prefix_rfl, List.mem_map.2 ⟨d, hd, beq_iff_eq.1 hname⟩,
        fun d hd => .inl hd⟩
    · rename_i hany
      split at h
      · cases h
      · rename_i haround
        obtain ⟨⟨fields, done₁⟩, hfields, h⟩ := ok_of_bind h
        dsimp only at h
        split at h
        case h_2 => cases h
        rename_i layout hlayout
        cases h
        have hnew : form.name ∉ around := fun hmem => haround (List.contains_iff_mem.2 hmem)
        have hnew' : form.name ∉ done.map (·.name) := fun hmem => by
          obtain ⟨d, hd, hname⟩ := List.mem_map.1 hmem
          exact hany (List.any_eq_true.2 ⟨d, hd, beq_iff_eq.2 hname⟩)
        have hsub' : form.name :: around ⊆ forms.map (·.name) :=
          List.cons_subset.2 ⟨List.mem_map.2 ⟨form, hform, rfl⟩, hsub⟩
        obtain ⟨hall, hlaid, hle, hout⟩ :=
          layOutFields_sound (fun hinner hdone h => layOut_sound
            (List.nodup_cons.2 ⟨hnew, hnodup⟩) hsub'
            (by rw [List.length_cons]; omega) hinner hdone h) hdone .nil hfields
        refine ⟨.snoc hlaid hform ?_ hall hlayout, hle.trans (List.prefix_append _ _), ?_, ?_⟩
        · intro hmem
          obtain ⟨d, hd, hname⟩ := List.mem_map.1 hmem
          rcases hout d hd with hold | hfresh
          · exact hnew' (List.mem_map.2 ⟨d, hold, hname⟩)
          · exact hfresh (hname ▸ List.mem_cons_self)
        · rw [List.map_append]
          exact List.mem_append_right _ List.mem_cons_self
        · intro d hd
          rcases List.mem_append.1 hd with hd | hd
          · exact (hout d hd).imp_right fun hfresh hmem => hfresh (List.mem_cons_of_mem _ hmem)
          · rw [List.mem_singleton.1 hd]
            exact .inr hnew

/-- **The structs of a unit are laid out one after the other**, each behind those it holds. -/
theorem layOutAll_laidOut {structs : List StructDef} (h : layOutAll names forms = .ok structs) :
    names.LaidOut forms structs ∧ ∀ form ∈ forms, form.name ∈ structs.map (·.name) := by
  have hfold : ∀ {todo : List StructForm} {done done' : List StructDef}, todo ⊆ forms →
      names.LaidOut forms done →
      todo.foldlM (fun done form => layOut names forms (forms.length + 1) [] form done) done =
        .ok done' →
      names.LaidOut forms done' ∧ done <+: done' ∧
        ∀ form ∈ todo, form.name ∈ done'.map (·.name) := by
    intro todo
    induction todo with
    | nil =>
      intro done done' _ hdone h
      cases h
      exact ⟨hdone, List.prefix_rfl, fun form hform => by cases hform⟩
    | cons form todo ih =>
      intro done done' hsub hdone h
      rw [List.foldlM_cons] at h
      obtain ⟨done₁, hstep, h⟩ := ok_of_bind h
      obtain ⟨hform, hsub⟩ := List.cons_subset.1 hsub
      obtain ⟨hdone₁, hle, hin, -⟩ := layOut_sound List.nodup_nil (List.nil_subset _)
        (Nat.zero_add _) hform hdone hstep
      obtain ⟨hdone', hle', hall⟩ := ih hsub hdone₁ h
      refine ⟨hdone', hle.trans hle', fun g hg => ?_⟩
      rcases List.mem_cons.1 hg with rfl | hg
      · exact List.map_subset _ hle'.subset hin
      · exact hall g hg
  obtain ⟨hlaid, -, hall⟩ := hfold (List.Subset.refl forms) .nil h
  exact ⟨hlaid, hall⟩

/-! ## Sizes in the end -/

/-- A type that is a struct is one of the unit or of a dependency. -/
theorem resolveType_struct {tree : Tree} {ref : StructRef}
    (h : names.resolveType tree = .ok (.struct ref)) :
    (ref.home = names.home ∧ ref.name ∈ names.structs) ∨
      ∃ m ∈ names.deps, ref.home = m.id ∧ (m.layout? ref.name).isSome = true := by
  rcases tree with ⟨n | b | text | name, s⟩ | ⟨items, s⟩
  · cases h
  · cases h
  · cases h
  · rw [resolveType] at h
    split at h
    · rename_i t ht
      cases h
      rw [type?] at ht
      split at ht
      · rename_i hprimitive
        cases ht
        unfold Ty.primitive? at hprimitive
        split at hprimitive <;> cases hprimitive
      · split at ht
        · rename_i hstruct
          cases ht
          exact .inl ⟨rfl, List.contains_iff_mem.1 hstruct⟩
        · obtain ⟨m, hm, ht⟩ := List.exists_of_findSome?_eq_some ht
          obtain ⟨l, hl, ht⟩ := Option.map_eq_some_iff.1 ht
          cases ht
          exact .inr ⟨m, hm, rfl, by rw [hl]; rfl⟩
    · cases h
  · rcases items with _ | ⟨head, _ | ⟨inner, _ | ⟨_, _⟩⟩⟩
    · cases h
    · cases h
    · rw [resolveType] at h
      split at h
      · obtain ⟨t, -, ht⟩ := ok_of_map h
        cases ht
      · split at h
        · obtain ⟨t, -, ht⟩ := ok_of_map h
          cases ht
        · cases h
    · cases h

/-- What the names are that structs of a unit are laid out with: those of its own structs, and
dependencies that are other modules. -/
structure Outlines (names : Names) (forms : List StructForm) : Prop where
  structs : names.structs = forms.map (·.name)
  deps : ∀ m ∈ names.deps, m.id ≠ names.home

variable (hnames : names.Outlines forms)

include hnames

/-- A struct of the unit that a field holds is done before. -/
theorem FieldOf.mem_of_own {before : List StructDef} {tree : Tree} {field : String × Ty}
    (h : names.FieldOf forms before tree field) {ref : StructRef} (href : field.2 = .struct ref)
    (hhome : ref.home = names.home) : ref.name ∈ before.map (·.name) := by
  obtain ⟨-, type, -, -, -, htype⟩ := h.shape
  rw [href] at htype
  rcases resolveType_struct htype with ⟨-, hname⟩ | ⟨m, hm, hid, -⟩
  · rw [hnames.structs] at hname
    obtain ⟨form, hform, hformname⟩ := List.mem_map.1 hname
    obtain ⟨inner, hinner⟩ : ∃ inner, forms.find? (·.name = ref.name) = some inner :=
      Option.isSome_iff_exists.1 (List.find?_isSome.2 ⟨form, hform, decide_eq_true hformname⟩)
    have hfound : inner.name = ref.name := of_decide_eq_true (List.find?_some hinner :)
    rw [← hfound]
    refine h.held inner ?_
    rw [href, ownStruct?, if_pos hhome, hinner]
  · exact absurd (hid.symm.trans hhome) (hnames.deps m hm)

/-- A field keeps its layout when more structs are done. -/
theorem FieldOf.find? {before done : List StructDef} {tree : Tree} {field : String × Ty}
    (h : names.FieldOf forms before tree field) (hle : before <+: done) {ref : StructRef}
    (href : field.2 = .struct ref) :
    (names.withStructs done).layouts.find? ref = (names.withStructs before).layouts.find? ref := by
  obtain ⟨rest, rfl⟩ := hle
  obtain ⟨-, type, -, -, -, htype⟩ := h.shape
  rw [withStructs, withStructs]
  dsimp only
  by_cases hhome : ref.home = names.home
  · rw [if_pos hhome, if_pos hhome, List.find?_append]
    rw [href] at htype
    rcases resolveType_struct htype with ⟨-, hname⟩ | ⟨m, hm, hid, -⟩
    · have hbefore : (before.find? (·.name = ref.name)).isSome = true := by
        rw [List.find?_isSome]
        obtain ⟨d, hd, hdname⟩ := List.mem_map.1 (h.mem_of_own hnames href hhome)
        exact ⟨d, hd, decide_eq_true hdname⟩
      rw [Option.or_of_isSome hbefore]
    · exact absurd (hid.symm.trans hhome) (hnames.deps m hm)
  · rw [if_neg hhome, if_neg hhome]

theorem FieldOf.size_eq {before done : List StructDef} {tree : Tree} {field : String × Ty}
    (h : names.FieldOf forms before tree field) (hle : before <+: done) :
    field.2.size (names.withStructs done).layouts =
      field.2.size (names.withStructs before).layouts ∧
      field.2.align (names.withStructs done).layouts =
        field.2.align (names.withStructs before).layouts := by
  exact Ty.size_eq_of_find? fun ref ht => h.find? hnames hle ht

omit hnames in
/-- What a struct is laid out with is the sizes and the alignments of its fields. -/
theorem ofFields?_congr {Γ Γ' : Layouts} {fields : List (String × Ty)}
    (h : ∀ f ∈ fields, f.2.size Γ' = f.2.size Γ ∧ f.2.align Γ' = f.2.align Γ) :
    Layout.ofFields? Γ' fields = Layout.ofFields? Γ fields := by
  have hfold : ∀ {p : Layout.Draft}, fields.foldlM (Layout.Draft.push? Γ') p =
      fields.foldlM (Layout.Draft.push? Γ) p := by
    induction fields with
    | nil => exact rfl
    | cons f fields ih =>
      intro p
      obtain ⟨hsize, halign⟩ := h f List.mem_cons_self
      have hpush : p.push? Γ' f = p.push? Γ f := by
        rw [Layout.Draft.push?, Layout.Draft.push?, hsize, halign]
      rw [List.foldlM_cons, List.foldlM_cons, hpush]
      exact congrArg _ (funext fun p => ih fun g hg => h g (List.mem_cons_of_mem f hg))
  rw [Layout.ofFields?, Layout.ofFields?, hfold]

/-- What is known of a struct in the end: where it stands, what its fields are, and that its layout
is made with the sizes they have in the end. -/
structure Ends (names : Names) (forms : List StructForm) (structs : List StructDef)
    (before : List StructDef) (d : StructDef) (form : StructForm) (fields : List (String × Ty)) :
    Prop where
  place : before ++ [d] <+: structs
  mem : form ∈ forms
  name : d.name = form.name
  holds : List.Forall₂ (names.FieldOf forms before) form.fields fields
  layout : Layout.ofFields? (names.withStructs structs).layouts fields = some d.layout

/-- **In the end every struct has the layout that its fields ask for**, and stands behind the
structs it holds. -/
theorem LaidOut.ends {structs : List StructDef} (h : names.LaidOut forms structs) :
    ∀ d ∈ structs, ∃ before form fields, Ends names forms structs before d form fields := by
  have hall : ∀ {part : List StructDef}, names.LaidOut forms part → part <+: structs →
      ∀ d ∈ part, ∃ before form fields, Ends names forms structs before d form fields := by
    intro part hpart
    induction hpart with
    | nil => exact fun _ d hd => by cases hd
    | @snoc done form fields layout hdone hform hnew hfields hlayout ih =>
      intro hle d hd
      rcases List.mem_append.1 hd with hd | hd
      · exact ih ((List.prefix_append _ _).trans hle) d hd
      · cases List.mem_singleton.1 hd
        refine ⟨done, form, fields, hle, hform, rfl, hfields, ?_⟩
        refine (ofFields?_congr fun f hf => ?_).trans hlayout
        obtain ⟨tree, -, hfield⟩ := exists_of_forall₂ hfields hf
        exact hfield.size_eq hnames ((List.prefix_append _ _).trans hle)
  exact hall h List.prefix_rfl

omit hnames

/-- No two structs have one name. -/
theorem LaidOut.nodup {structs : List StructDef} (h : names.LaidOut forms structs) :
    (structs.map (·.name)).Nodup := by
  induction h with
  | nil => exact List.nodup_nil
  | snoc _ _ hnew _ _ ih =>
    rw [List.map_append, List.nodup_append]
    refine ⟨ih, List.nodup_singleton _, ?_⟩
    rintro name hname other hother rfl
    cases List.mem_singleton.1 hother
    exact hnew hname

end Names

end Kiln
