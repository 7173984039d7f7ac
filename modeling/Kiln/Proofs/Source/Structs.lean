import Kiln.Proofs.Lowering.Structs
import Kiln.Proofs.Source.Spans
/-!
# The structs of a unit that is lowered

Every struct that the tree of a unit defines is one of the module, with the fields that the
tree gives it and the layout these ask for (`Settled.lies`). It stands behind the structs it
holds by value.
-/

namespace Kiln

namespace Source

/-- A tree that says what a field is called and what type it has. -/
def Scenery.FieldTree (D : Scenery) (t : Tree) (field : String × Ty) : Prop :=
  ∃ name type s, t = .node [name, type] s ∧ name.symbol? = some field.1 ∧ D.typeOf type = field.2

/-- How a struct of a unit lies in memory, and among the structs of its module. -/
structure Lies (D : Scenery) (Γ : Layouts) (structs : List StructDef) (form : StructForm)
    (before : List StructDef) (d : StructDef) (fields : List (String × Ty)) : Prop where
  place : before ++ [d] <+: structs
  name : d.name = form.name
  layout : Layout.ofFields? Γ fields = some d.layout
  shapes : List.Forall₂ D.FieldTree form.fields fields
  storable : ∀ f ∈ fields, f.2.isStorable = true
  /-- A struct that a field holds is one of the unit that stands before this one, or one of a
  dependency. -/
  held : ∀ f ∈ fields, ∀ ref, f.2 = .struct ref →
    (ref.home = D.home ∧ ref.name ∈ before.map (·.name)) ∨
      ∃ dep ∈ D.deps, ref.home = dep.id ∧ (dep.layout? ref.name).isSome = true

theorem Scenery.FieldTree.of_respan {D : Scenery} {t u : Tree} {field : String × Ty}
    (h : D.FieldTree t field) (hspans : t.respan default = u.respan default) :
    D.FieldTree u field := by
  obtain ⟨name, type, s, rfl, hname, htype⟩ := h
  have hitems := congrArg Tree.items? hspans
  rw [Tree.items?_respan, Tree.items?_respan] at hitems
  rcases u with ⟨a, s'⟩ | ⟨_ | ⟨name', _ | ⟨type', _ | ⟨_, _⟩⟩⟩, s'⟩
  case node.cons.cons.nil =>
    obtain ⟨hname', htype'⟩ : name.respan default = name'.respan default ∧
        type.respan default = type'.respan default := by
      simpa [Tree.items?] using hitems
    refine ⟨name', type', s', rfl, ?_, ?_⟩
    · rw [← Tree.symbol?_respan default, ← hname', Tree.symbol?_respan, hname]
    · rw [← D.typeOf_respan default, ← htype', D.typeOf_respan, htype]
  all_goals simp [Tree.items?] at hitems

theorem fieldTrees_of_respan {D : Scenery} {fields : List (String × Ty)} :
    ∀ {ts us : List Tree}, ts.map (Tree.respan default) = us.map (Tree.respan default) →
      List.Forall₂ D.FieldTree ts fields → List.Forall₂ D.FieldTree us fields := by
  intro ts us hspans h
  induction h generalizing us with
  | nil =>
    rw [List.map_nil, eq_comm, List.map_eq_nil_iff] at hspans
    rw [hspans]
    exact .nil
  | cons hfield _ ih =>
    rcases us with _ | ⟨u, us⟩
    · cases hspans
    · rw [List.map_cons, List.map_cons, List.cons.injEq] at hspans
      exact .cons (hfield.of_respan hspans.1) (ih hspans.2)

/-- A name that is not reserved is not the name of a type of the language. -/
theorem primitive?_eq_none {word : String} (hword : isReserved word = false) :
    Ty.primitive? word = none := by
  have hnames : Ty.primitiveNames.contains word = false := by
    rw [isReserved] at hword
    simp only [Bool.or_eq_false_iff] at hword
    exact hword.1.2
  unfold Ty.primitive?
  split
  all_goals first | rfl | cases hnames

section Unit

variable {lib : Library} {deps : List Module} {root root' : Tree} {names : Names}
  {forms : List FunctionForm} {m : Module}

/-- What the structs of a unit are laid out with. -/
theorem Settled.outlines (h : Settled lib deps root names forms m)
    (hdeps : ∀ dep ∈ deps, dep.id ≠ lib.nextId) :
    Names.Outlines ⟨lib.nextId, deps, lib.layouts, names.structs, [], []⟩
      ((definitions root).filterMap Scenery.structOf?) where
  structs := h.structs
  deps := hdeps

/-- No two structs of a module have one name. -/
theorem Settled.nodup_structs (h : Settled lib deps root names forms m) :
    (m.structs.map (·.name)).Nodup :=
  (Names.layOutAll_laidOut h.laid).1.nodup

/-- The name of a struct of a unit is the struct, as a type. -/
theorem Settled.typeOf_struct (h : Settled lib deps root names forms m) {form : StructForm}
    (hform : form ∈ (definitions root).filterMap Scenery.structOf?) (s : Span) :
    (Scenery.ofUnit lib.nextId deps root).typeOf (.leaf (.sym form.name) s) =
      .struct ⟨lib.nextId, form.name⟩ := by
  have hmem : form.name ∈ (Scenery.ofUnit lib.nextId deps root).structs := List.mem_map_of_mem hform
  rw [Scenery.typeOf, Scenery.typeNamed?, primitive?_eq_none (h.named.2 form hform)]
  dsimp only
  rw [if_pos (List.contains_iff_mem.2 hmem)]
  rfl

theorem Scenery.structs_of_respan (hspans : root'.respan default = root.respan default) :
    ((definitions root').filterMap Scenery.structOf?).map (Scenery.respanStruct default) =
      ((definitions root).filterMap Scenery.structOf?).map (Scenery.respanStruct default) := by
  rw [← Scenery.structs_respan, ← Scenery.structs_respan, hspans]

variable (h : Settled lib deps root names forms m)
  (hspans : root'.respan default = root.respan default)

include h hspans

theorem Settled.named_of_respan :
    Scenery.Named ((definitions root').filterMap Scenery.structOf?) := by
  have hsame := Scenery.structs_of_respan hspans
  refine ⟨?_, fun form hform => ?_⟩
  · have hnames := congrArg (List.map StructForm.name) hsame
    rw [List.map_map, List.map_map] at hnames
    exact (hnames ▸ h.named.1 :)
  · obtain ⟨read, hread, hreadform⟩ := List.mem_map.1 (hsame ▸ List.mem_map_of_mem hform)
    exact (congrArg StructForm.name hreadform :) ▸ h.named.2 read hread

variable (hdeps : ∀ dep ∈ deps, dep.id ≠ lib.nextId)

include hdeps

/-- **Each struct of the module is one that the tree of the unit defines**, and lies as the tree
says. -/
theorem Settled.lies_of_mem {d : StructDef} (hd : d ∈ m.structs) :
    ∃ form ∈ (definitions root').filterMap Scenery.structOf?, ∃ before fields,
      Lies (Scenery.ofUnit lib.nextId deps root') (lib.push m).layouts m.structs form before d
        fields := by
  obtain ⟨hlaid, -⟩ := Names.layOutAll_laidOut h.laid
  have hlayouts : _ = (lib.push m).layouts :=
    layouts_push ⟨lib.nextId, deps, lib.layouts, names.structs, [], []⟩ rfl rfl rfl
  obtain ⟨before, read, fields, hends⟩ := hlaid.ends (h.outlines hdeps) d hd
  -- the same struct in the tree that is asked about
  obtain ⟨form, hform, hformread⟩ :=
    List.mem_map.1 ((Scenery.structs_of_respan hspans).symm ▸ List.mem_map_of_mem hends.mem)
  have htype : ∀ {tree : Tree} {t : Ty},
      Names.resolveType ⟨lib.nextId, deps, lib.layouts, names.structs, [], []⟩ tree = .ok t →
        (Scenery.ofUnit lib.nextId deps root').typeOf tree = t := by
    intro tree t ht
    refine Scenery.typeOf_of_resolveType _ (Scenery.type?_eq rfl rfl ?_) tree ht
    have hunits : (Scenery.ofUnit lib.nextId deps root).respan default =
        (Scenery.ofUnit lib.nextId deps root').respan default := by
      rw [← Scenery.ofUnit_respan, ← Scenery.ofUnit_respan, hspans]
    rw [h.structs]
    exact (congrArg Scenery.structs hunits :)
  refine ⟨form, hform, before, fields, hends.place, ?_, hlayouts ▸ hends.layout, ?_, ?_, ?_⟩
  · rw [hends.name]
    exact (congrArg StructForm.name hformread.symm :)
  · refine fieldTrees_of_respan (congrArg StructForm.fields hformread.symm) (hends.holds.imp ?_)
    rintro tree field ⟨⟨name, type, s, rfl, hname, ht⟩, -, -⟩
    exact ⟨name, type, s, rfl, hname, htype ht⟩
  · intro f hf
    obtain ⟨tree, -, hfield⟩ := exists_of_forall₂ hends.holds hf
    exact hfield.storable
  · intro f hf ref href
    obtain ⟨tree, -, hfield⟩ := exists_of_forall₂ hends.holds hf
    obtain ⟨-, type, -, -, -, hresolve⟩ := hfield.shape
    rw [href] at hresolve
    refine (Names.resolveType_struct hresolve).imp (fun hown => ⟨hown.1, ?_⟩) fun hdep => hdep
    exact hfield.mem_of_own (h.outlines hdeps) href hown.1

/-- And each that the tree defines is one of the module. -/
theorem Settled.lies {form : StructForm}
    (hform : form ∈ (definitions root').filterMap Scenery.structOf?) :
    ∃ before d fields, Lies (Scenery.ofUnit lib.nextId deps root') (lib.push m).layouts m.structs
      form before d fields := by
  obtain ⟨read, hread, hreadform⟩ :=
    List.mem_map.1 (Scenery.structs_of_respan hspans ▸ List.mem_map_of_mem hform)
  obtain ⟨d, hd, hdname⟩ := List.mem_map.1 ((Names.layOutAll_laidOut h.laid).2 read hread)
  obtain ⟨form', hform', before, fields, hlies⟩ := h.lies_of_mem hspans hdeps hd
  have hname : read.name = form.name := (congrArg StructForm.name hreadform :)
  obtain rfl : form' = form := List.inj_on_of_nodup_map (h.named_of_respan hspans).1 hform' hform
    (hlies.name.symm.trans (hdname.trans hname))
  exact ⟨before, d, fields, hlies⟩

omit h hspans hdeps

/-! ## Which struct stands before which -/

variable {D : Scenery} {Γ : Layouts} {structs before before' : List StructDef}
  {form form' : StructForm} {d d' : StructDef} {fields fields' : List (String × Ty)}

theorem Lies.mem (h : Lies D Γ structs form before d fields) : d ∈ structs :=
  h.place.subset (List.mem_append_right before List.mem_cons_self)

/-- No struct holds itself, -/
theorem Lies.not_mem (h : Lies D Γ structs form before d fields)
    (hnodup : (structs.map (·.name)).Nodup) : d.name ∉ before.map (·.name) := by
  have hplace := (h.place.sublist.map (·.name)).nodup hnodup
  rw [List.map_append, List.nodup_append] at hplace
  exact fun hmem => hplace.2.2 _ hmem _ (List.mem_map_of_mem List.mem_cons_self) rfl

/-- nor do two structs hold each other. -/
theorem Lies.asymm (h : Lies D Γ structs form before d fields)
    (h' : Lies D Γ structs form' before' d' fields') (hnodup : (structs.map (·.name)).Nodup)
    (hmem : d.name ∈ before'.map (·.name)) : d'.name ∉ before.map (·.name) := by
  intro hmem'
  have hinit :
      ∀ {xs ys : List StructDef} {x y : StructDef}, xs ++ [x] <+: ys ++ [y] → xs <+: ys := by
    intro xs ys x y hxy
    rcases List.prefix_concat_iff.1 hxy with heq | hle
    · exact (List.append_inj' heq rfl).1 ▸ List.prefix_rfl
    · exact (List.prefix_append xs [x]).trans hle
  rcases List.prefix_or_prefix_of_prefix h.place h'.place with hle | hle
  · exact h'.not_mem hnodup (List.map_subset _ (hinit hle).subset hmem')
  · exact h.not_mem hnodup (List.map_subset _ (hinit hle).subset hmem)

/-- The module has the layout under the name of the struct. -/
theorem Lies.layout? (h : Lies D Γ m.structs form before d fields)
    (hnodup : (m.structs.map (·.name)).Nodup) :
    m.layout? form.name = some d.layout := by
  obtain ⟨found, hfound⟩ : ∃ found, m.structs.find? (·.name = form.name) = some found :=
    Option.isSome_iff_exists.1 (List.find?_isSome.2 ⟨d, h.mem, decide_eq_true h.name⟩)
  have hname : found.name = form.name := of_decide_eq_true (List.find?_some hfound :)
  obtain rfl : found = d := List.inj_on_of_nodup_map hnodup (List.mem_of_find?_eq_some hfound) h.mem
    (hname.trans h.name.symm)
  rw [Module.layout?, hfound]
  rfl

end Unit

end Source

end Kiln
