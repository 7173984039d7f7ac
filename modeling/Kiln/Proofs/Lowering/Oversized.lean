import Kiln.Proofs.Lowering.Following
import Kiln.Proofs.Lowering.Structs
/-!
# Structs that the host gives up on

Of all that is done with a unit, one thing alone can end with the host giving up: laying out a
struct whose fields reach further than offsets can tell. Wherever that happens, the structs that the
fields hold are laid out by then (`Names.Oversized`, `layOutAll_oversized`), so what they take is
known.
-/

namespace Kiln

variable {names : Names} {forms : List StructForm}

/-- There is a struct of the name that has no layout behind the structs it holds. -/
def Names.Oversized (names : Names) (forms : List StructForm) (struct : String) : Prop :=
  ∃ done form fields, names.LaidOut forms done ∧ form ∈ forms ∧ form.name = struct ∧
    List.Forall₂ (names.FieldOf forms done) form.fields fields ∧
    Layout.ofFields? (names.withStructs done).layouts fields = none

theorem Names.mem_of_ownStruct? {t : Ty} {inner : StructForm}
    (h : names.ownStruct? forms t = some inner) : inner ∈ forms := by
  unfold ownStruct? at h
  split at h
  · split at h
    · exact List.mem_of_find?_eq_some h
    · cases h
  · cases h

/-- Of a field, it is the struct that the field holds. -/
theorem layOutField_oversized {struct : String} {s : Span} {t : Tree}
    {lay : StructForm → List StructDef → Except LoweringError (List StructDef)}
    {acc : List (String × Ty) × List StructDef}
    (h : layOutField names forms lay acc t = .error ⟨.oversized struct, s⟩) :
    ∃ inner ∈ forms, lay inner acc.2 = .error ⟨.oversized struct, s⟩ := by
  have hself (t : Tree) : t.Matches (fun _ _ => True) t := Tree.matches_self fun _ _ => trivial
  rcases error_of_bind h with hpair | ⟨⟨nameTree, typeTree⟩, -, h⟩
  · exact ((pairOf_upheld (hself t) _).told hpair : False).elim
  rcases error_of_bind h with hname | ⟨name, -, h⟩
  · exact ((declaredName_upheld (hself nameTree) .field).told hname : False).elim
  rcases error_of_bind h with htype | ⟨type, -, h⟩
  · exact ((resolveType_upheld (fun h => h) (hself typeTree)).told htype : False).elim
  have hfinish : ∀ {done : List StructDef},
      (if !type.isStorable then refuse (.unstorableField name type) typeTree.span
        else if acc.1.any (·.1 == name) then refuse (.declaredTwice .field name) t.span
        else pure (acc.1 ++ [(name, type)], done) :
          Except LoweringError (List (String × Ty) × List StructDef)) ≠
        .error ⟨.oversized struct, s⟩ := by
    intro done hfinish
    split at hfinish
    · cases hfinish
    · split at hfinish <;> cases hfinish
  dsimp only at h
  split at h
  · rename_i inner hinner
    rcases error_of_bind h with hlay | ⟨done, -, h⟩
    · exact ⟨inner, Names.mem_of_ownStruct? hinner, hlay⟩
    · exact absurd h hfinish
  · exact absurd h hfinish

/-- **A struct that cannot be laid out is one that takes too much**, or one of those it holds is. -/
theorem layOut_oversized {struct : String} {s : Span} : ∀ {depth : Nat} {around : List String}
    {form : StructForm} {done : List StructDef}, around.Nodup → around ⊆ forms.map (·.name) →
      around.length + depth = forms.length + 1 → form ∈ forms → names.LaidOut forms done →
        layOut names forms depth around form done = .error ⟨.oversized struct, s⟩ →
          names.Oversized forms struct
  | 0, _, _, _, _, _, _, _, _, h => by cases h
  | depth + 1, around, form, done, hnodup, hsub, hdepth, hform, hdone, h => by
    rw [layOut] at h
    split at h
    · cases h
    split at h
    · cases h
    rename_i haround
    have hnew : form.name ∉ around := fun hmem => haround (List.contains_iff_mem.2 hmem)
    have hnodup' := List.nodup_cons.2 ⟨hnew, hnodup⟩
    have hsub' : form.name :: around ⊆ forms.map (·.name) :=
      List.cons_subset.2 ⟨List.mem_map.2 ⟨form, hform, rfl⟩, hsub⟩
    have hdepth' : (form.name :: around).length + depth = forms.length + 1 := by
      rw [List.length_cons]
      omega
    have hlay : ∀ {inner done done'}, inner ∈ forms → names.LaidOut forms done →
        layOut names forms depth (form.name :: around) inner done = .ok done' →
          Names.Extends names forms (form.name :: around) inner done done' :=
      Names.layOut_sound hnodup' hsub' hdepth'
    rcases error_of_bind h with hfields | ⟨⟨fields, done₁⟩, hfields, h⟩
    · -- the host gives up on a struct that a field holds
      obtain ⟨acc, hacc, t, -, ht⟩ := error_of_foldlM
        (I := fun acc : List (String × Ty) × List StructDef => names.LaidOut forms acc.2)
        (fun _ _ hacc hstep => by
          obtain ⟨_, _, _, hlaid, _⟩ := Names.layOutField_sound hlay hacc hstep
          exact hlaid) hdone hfields
      obtain ⟨inner, hinner, h⟩ := layOutField_oversized ht
      exact layOut_oversized hnodup' hsub' hdepth' hinner hacc h
    · dsimp only at h
      split at h
      · cases h
      · rename_i hnone
        cases h
        obtain ⟨hall, hlaid, -, -⟩ := Names.layOutFields_sound hlay hdone .nil hfields
        exact ⟨done₁, form, fields, hlaid, hform, rfl, hall, hnone⟩

theorem layOutAll_oversized {struct : String} {s : Span}
    (h : layOutAll names forms = .error ⟨.oversized struct, s⟩) : names.Oversized forms struct := by
  obtain ⟨before, hbefore, form, hform, h⟩ := error_of_foldlM
    (fun _ hform hdone hstep => (Names.layOut_sound List.nodup_nil (List.nil_subset _)
      (Nat.zero_add _) hform hdone hstep).1) .nil h
  exact layOut_oversized List.nodup_nil (List.nil_subset _) (Nat.zero_add _) hform hbefore h

end Kiln
