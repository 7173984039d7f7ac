import Kiln.Proofs.Lowering.Oversized
import Kiln.Proofs.Lowering.Units
import Kiln.Proofs.Rearranged
/-!
# The order of structs does not matter

Whether the structs of a unit can be laid out depends on their fields alone, and on there being no
struct that holds itself: it is enough that each has fields that can be read, that the structs can
be ranked, each above those it holds, and that none takes too much (`layOutAll_ok_of_rank`). Structs
that were laid out are ranked by their places. So structs that come in another order are laid out
too, and since each layout is made of the sizes its fields have in the end, they come to the same
layouts (`layOutAll_rearranged`).
-/

namespace Kiln

variable {names : Names} {forms : List StructForm}

/-! ## Fields, one struct at a time -/

namespace Names

/-- The tree declares the field: a name and a type that memory can hold. -/
structure ReadsField (names : Names) (t : Tree) (field : String × Ty) : Prop where
  read : ∃ nameTree typeTree, pairOf t "(field Type)" = .ok (nameTree, typeTree) ∧
    declaredName nameTree .field = .ok field.1 ∧ names.resolveType typeTree = .ok field.2
  storable : field.2.isStorable = true

/-- The struct declares the fields, each under a name of its own. -/
structure ReadsFields (names : Names) (form : StructForm) (fields : List (String × Ty)) : Prop where
  each : List.Forall₂ names.ReadsField form.fields fields
  nodup : (fields.map (·.1)).Nodup

/-- Lays out what a field of a type holds. -/
def hold (names : Names) (forms : List StructForm)
    (lay : StructForm → List StructDef → Except LoweringError (List StructDef))
    (done : List StructDef) (t : Ty) : Except LoweringError (List StructDef) :=
  match names.ownStruct? forms t with
  | some inner => lay inner done
  | none => .ok done

end Names

section Fields

variable {lay : StructForm → List StructDef → Except LoweringError (List StructDef)}

/-- What is done with a field that can be read. -/
theorem layOutField_eq {acc : List (String × Ty) × List StructDef} {t nameTree typeTree : Tree}
    (field : String × Ty) (hpair : pairOf t "(field Type)" = .ok (nameTree, typeTree))
    (hname : declaredName nameTree .field = .ok field.1)
    (htype : names.resolveType typeTree = .ok field.2) :
    layOutField names forms lay acc t = names.hold forms lay acc.2 field.2 >>= fun done =>
      if !field.2.isStorable then refuse (.unstorableField field.1 field.2) typeTree.span
      else if acc.1.any (·.1 == field.1) then refuse (.declaredTwice .field field.1) t.span
      else return (acc.1 ++ [field], done) := by
  unfold layOutField Names.hold
  rw [hpair]
  show (declaredName nameTree .field >>= _) = _
  rw [hname]
  show (names.resolveType typeTree >>= _) = _
  rw [htype]
  show (match names.ownStruct? forms field.2 with | some inner => _ | none => _) = _
  split <;> rfl

/-- A field goes through only if it can be read and has a name of its own. -/
theorem reads_of_layOutField {acc acc' : List (String × Ty) × List StructDef} {t : Tree}
    (h : layOutField names forms lay acc t = .ok acc') :
    ∃ field, names.ReadsField t field ∧ field.1 ∉ acc.1.map (·.1) ∧ acc'.1 = acc.1 ++ [field] := by
  have hany : ∀ name, acc.1.any (·.1 == name) = true ↔ name ∈ acc.1.map (·.1) := by simp
  obtain ⟨⟨nameTree, typeTree⟩, hpair, hrest⟩ := ok_of_bind h
  obtain ⟨name, hname, hrest⟩ := ok_of_bind hrest
  obtain ⟨t, htype, -⟩ := ok_of_bind hrest
  rw [layOutField_eq (name, t) hpair hname htype] at h
  obtain ⟨done, -, h⟩ := ok_of_bind h
  split at h
  · cases h
  · rename_i hstorable
    split at h
    · cases h
    · rename_i hnew
      cases h
      exact ⟨(name, t), ⟨⟨nameTree, typeTree, hpair, hname, htype⟩, by simpa using hstorable⟩,
        fun hmem => hnew ((hany name).2 hmem), rfl⟩

/-- So it is with fields one after the other. -/
theorem reads_of_layOutFields : ∀ {trees : List Tree} {before after : List (String × Ty)}
    {done done' : List StructDef}, (before.map (·.1)).Nodup →
      trees.foldlM (layOutField names forms lay) (before, done) = .ok (after, done') →
        ∃ fields, List.Forall₂ names.ReadsField trees fields ∧ after = before ++ fields ∧
          (after.map (·.1)).Nodup
  | [], _, _, _, _, hbefore, h => by
    cases h
    exact ⟨[], .nil, (List.append_nil _).symm, hbefore⟩
  | t :: trees, before, _, _, _, hbefore, h => by
    rw [List.foldlM_cons] at h
    obtain ⟨⟨between, done₁⟩, hstep, h⟩ := ok_of_bind h
    obtain ⟨field, hfield, hnew, rfl⟩ := reads_of_layOutField hstep
    have hbetween : ((before ++ [field]).map (·.1)).Nodup := by
      rw [List.map_append, List.nodup_append_comm]
      exact List.nodup_cons.2 ⟨hnew, hbefore⟩
    obtain ⟨fields, hfields, rfl, hnodup⟩ := reads_of_layOutFields hbetween h
    exact ⟨field :: fields, .cons hfield hfields, List.append_assoc _ _ _, hnodup⟩

/-- What becomes of fields that can be read is what becomes of the structs they hold. -/
theorem layOutFields_eq : ∀ {trees : List Tree} {fields before : List (String × Ty)}
    (done : List StructDef), List.Forall₂ names.ReadsField trees fields →
      ((before ++ fields).map (·.1)).Nodup →
        trees.foldlM (layOutField names forms lay) (before, done) =
          ((fields.map (·.2)).foldlM (names.hold forms lay) done).map fun done =>
            (before ++ fields, done)
  | [], _, before, done, .nil, _ => by
    rw [List.append_nil]
    rfl
  | t :: trees, field :: fields, before, done, .cons hfield hfields, hnodup => by
    obtain ⟨nameTree, typeTree, hpair, hname, htype⟩ := hfield.read
    rw [List.append_cons before] at hnodup ⊢
    have hnew : ¬before.any (·.1 == field.1) = true := by
      rw [List.map_append, List.map_append, List.nodup_append, List.nodup_append_comm] at hnodup
      intro hany
      obtain ⟨other, hother, heq⟩ := List.any_eq_true.1 hany
      exact (List.nodup_cons.1 hnodup.1).1 (List.mem_map.2 ⟨other, hother, beq_iff_eq.1 heq⟩)
    rw [List.foldlM_cons, layOutField_eq field hpair hname htype, hfield.storable, List.map_cons,
      List.foldlM_cons]
    cases names.hold forms lay done field.2 with
    | error e => rfl
    | ok done =>
      show ((if before.any (·.1 == field.1) then _ else _) >>= _) = _
      rw [if_neg hnew]
      exact layOutFields_eq done hfields hnodup

theorem layOutForm_eq {form : StructForm} {fields : List (String × Ty)} (done : List StructDef)
    (h : names.ReadsFields form fields) :
    form.fields.foldlM (layOutField names forms lay) ([], done) =
      ((fields.map (·.2)).foldlM (names.hold forms lay) done).map fun done => (fields, done) :=
  layOutFields_eq done h.each h.nodup

/-- The fields of a struct go through only if they can be read and what they hold is laid out. -/
theorem reads_of_layOutForm {form : StructForm} {fields : List (String × Ty)}
    {done done' : List StructDef}
    (h : form.fields.foldlM (layOutField names forms lay) ([], done) = .ok (fields, done')) :
    names.ReadsFields form fields ∧
      (fields.map (·.2)).foldlM (names.hold forms lay) done = .ok done' := by
  have hstart : (([] : List (String × Ty)).map (·.1)).Nodup := List.nodup_nil
  obtain ⟨_, heach, rfl, hnodup⟩ := reads_of_layOutFields hstart h
  rw [layOutForm_eq done ⟨heach, hnodup⟩] at h
  obtain ⟨done₁, hdone, heq⟩ := ok_of_map h
  cases heq
  exact ⟨⟨heach, hnodup⟩, hdone⟩

end Fields

/-! ## Structs that can be ranked -/

/-- The structs can be read, and are ranked above those they hold. -/
def Names.Ranked (names : Names) (forms : List StructForm) (rank : String → Nat) : Prop :=
  ∀ form ∈ forms, ∃ fields, names.ReadsFields form fields ∧
    ∀ f ∈ fields, ∀ inner, names.ownStruct? forms f.2 = some inner →
      rank inner.name < rank form.name

section Rank

variable {rank : String → Nat} (h : names.Ranked forms rank)

include h

/-- **Of a struct that is ranked below those around it nothing is told**, however many are done. -/
theorem layOut_of_rank {e : LoweringError} : ∀ {depth : Nat} {around : List String}
    {form : StructForm} {done : List StructDef}, form ∈ forms →
      (∀ name ∈ around, rank form.name < rank name) →
        layOut names forms depth around form done = .error e → ¬e.fault.Told
  | 0, _, _, _, _, _, hlay => by cases hlay
  | depth + 1, around, form, done, hform, haround, hlay => by
    obtain ⟨fields, hread, hbelow⟩ := h form hform
    rw [layOut] at hlay
    split at hlay
    · cases hlay
    split at hlay
    · rename_i hcontains
      exact absurd (haround _ (List.contains_iff_mem.1 hcontains)) (Nat.lt_irrefl _)
    rw [layOutForm_eq done hread] at hlay
    cases hholds : (fields.map (·.2)).foldlM
        (names.hold forms (layOut names forms depth (form.name :: around))) done with
    | error e' =>
      rw [hholds] at hlay
      cases hlay
      obtain ⟨done₁, -, t, ht, hhold⟩ :=
        error_of_foldlM (I := fun _ => True) (fun _ _ _ _ => trivial) trivial hholds
      obtain ⟨f, hf, rfl⟩ := List.mem_map.1 ht
      unfold Names.hold at hhold
      split at hhold
      · -- what the field holds is ranked below the struct itself, and so below all around it
        rename_i inner hinner
        have hlt := hbelow f hf inner hinner
        refine layOut_of_rank (Names.mem_of_ownStruct? hinner) (fun name hname => ?_) hhold
        rcases List.mem_cons.1 hname with rfl | hname
        · exact hlt
        · exact hlt.trans (haround name hname)
      · cases hhold
    | ok done₁ =>
      rw [hholds] at hlay
      dsimp only [Except.map, bind, Except.bind] at hlay
      split at hlay
      · cases hlay
      · cases hlay
        exact id

/-- **Structs that are ranked are laid out**, if none takes too much. -/
theorem layOutAll_ok_of_rank (hsizes : ∀ struct, ¬names.Oversized forms struct) :
    ∃ structs, layOutAll names forms = .ok structs := by
  cases hall : layOutAll names forms with
  | ok structs => exact ⟨structs, rfl⟩
  | error e =>
    obtain ⟨done, -, form, hform, hlay⟩ :=
      error_of_foldlM (I := fun _ => True) (fun _ _ _ _ => trivial) trivial hall
    have htold := layOut_of_rank h hform (fun _ hname => absurd hname List.not_mem_nil) hlay
    obtain ⟨struct, hcause⟩ := LoweringFault.eq_oversized htold
    obtain ⟨f, s⟩ := e
    cases hcause
    exact absurd (layOutAll_oversized hall) (hsizes struct)

end Rank

/-- There is a struct of the name, and it can be read. -/
def Names.Readable (names : Names) (forms : List StructForm) (d : StructDef) : Prop :=
  ∃ form ∈ forms, form.name = d.name ∧ ∃ fields, names.ReadsFields form fields

/-- What laying out a struct adds are structs that can be read. -/
theorem layOut_reads :
    ∀ {depth : Nat} {around : List String} {form : StructForm} {done done' : List StructDef},
    form ∈ forms → layOut names forms depth around form done = .ok done' →
      ∀ d ∈ done', d ∈ done ∨ names.Readable forms d
  | 0, around, form, done, done', hform, h, d, hd => by
    cases h
    exact .inl hd
  | depth + 1, around, form, done, done', hform, h, d, hd => by
    rw [layOut] at h
    split at h
    · cases h
      exact .inl hd
    · split at h
      · cases h
      · obtain ⟨⟨fields, done₁⟩, hfields, h⟩ := ok_of_bind h
        dsimp only at h
        split at h
        case h_2 => cases h
        cases h
        obtain ⟨hread, hholds⟩ := reads_of_layOutForm hfields
        rcases List.mem_append.1 hd with hd | hd
        · refine mem_of_foldlM (fun t _ hstep d hd => ?_) hholds d hd
          unfold Names.hold at hstep
          split at hstep
          · rename_i inner hinner
            exact layOut_reads (Names.mem_of_ownStruct? hinner) hstep d hd
          · cases hstep
            exact .inl hd
        · rw [List.mem_singleton.1 hd]
          exact .inr ⟨form, hform, rfl, fields, hread⟩

/-- **The structs of a unit that is accepted can be read**, each by itself. -/
theorem layOutAll_reads {structs : List StructDef} (hnodup : (forms.map (·.name)).Nodup)
    (h : layOutAll names forms = .ok structs) :
    ∀ form ∈ forms, ∃ fields, names.ReadsFields form fields := by
  intro form hform
  obtain ⟨d, hd, hname⟩ := List.mem_map.1 ((Names.layOutAll_laidOut h).2 form hform)
  rcases mem_of_foldlM (fun _ hform hstep => layOut_reads hform hstep) h d hd with hd
    | ⟨form', hform', hname', hread⟩
  · cases hd
  · rwa [List.inj_on_of_nodup_map hnodup hform' hform (hname'.trans hname)] at hread

/-! ## Structs that are laid out are ranked -/

namespace Names

theorem ownStruct?_eq_some {t : Ty} {inner : StructForm}
    (h : names.ownStruct? forms t = some inner) :
    t = .struct ⟨names.home, inner.name⟩ := by
  unfold ownStruct? at h
  split at h
  · rename_i ref
    split at h
    · rename_i hhome
      have hname : inner.name = ref.name := of_decide_eq_true (List.find?_some h :)
      rw [hname, ← hhome]
    · cases h
  · cases h

theorem exists_ownStruct? {name : String} (h : name ∈ forms.map (·.name)) :
    ∃ inner, names.ownStruct? forms (.struct ⟨names.home, name⟩) = some inner := by
  obtain ⟨inner, hfound, -⟩ := exists_find? h
  exact ⟨inner, (if_pos rfl).trans hfound⟩

/-- A field stands for what it is read as. -/
theorem FieldOf.eq_of_reads {done : List StructDef} {t : Tree} {field field' : String × Ty}
    (h : names.FieldOf forms done t field) (h' : names.ReadsField t field') : field = field' := by
  obtain ⟨nameTree, typeTree, s, rfl, hname, htype⟩ := h.shape
  obtain ⟨nameTree', typeTree', hpair, hname', htype'⟩ := h'.read
  cases hpair
  have hfirst := hname.symm.trans (declaredName_eq hname').1
  exact Prod.ext (Option.some.inj hfirst) (Except.ok.inj (htype.symm.trans htype'))

/-- So the fields of a struct are those it is read with. -/
theorem eq_of_reads {done : List StructDef} {form : StructForm}
    {fields fields' : List (String × Ty)}
    (h : List.Forall₂ (names.FieldOf forms done) form.fields fields)
    (h' : names.ReadsFields form fields') :
    fields = fields' := by
  have hsame := (forall₂_through h h'.each).imp fun _ _ ⟨_, _, hf, hf'⟩ => hf.eq_of_reads hf'
  rwa [List.forall₂_eq_eq_eq] at hsame

end Names

/-- The place of a struct among those that are laid out. -/
def placeOf (structs : List StructDef) (name : String) : Nat := (structs.map (·.name)).idxOf name

/-- **Structs that are laid out are ranked by their places.** -/
theorem ranked_of_layOutAll {structs : List StructDef} (hnames : names.Outlines forms)
    (hnodup : (forms.map (·.name)).Nodup) (h : layOutAll names forms = .ok structs) :
    names.Ranked forms (placeOf structs) := by
  intro form hform
  obtain ⟨fields, hread⟩ := layOutAll_reads hnodup h form hform
  refine ⟨fields, hread, fun f hf inner hinner => ?_⟩
  obtain ⟨hlaid, hall⟩ := Names.layOutAll_laidOut h
  obtain ⟨d, hd, hname⟩ := List.mem_map.1 (hall form hform)
  obtain ⟨before, form', fields', hends⟩ := hlaid.ends hnames d hd
  have hsame : form' = form :=
    List.inj_on_of_nodup_map hnodup hends.mem hform (hends.name.symm.trans hname)
  subst hsame
  obtain rfl := Names.eq_of_reads hends.holds hread
  -- what the field holds is among the structs before its own
  obtain ⟨t, -, hfield⟩ := exists_of_forall₂ hends.holds hf
  have hbefore : inner.name ∈ before.map (·.name) := hfield.held inner hinner
  obtain ⟨rest, hstructs⟩ := hends.place
  have hnew : form'.name ∉ before.map (·.name) := by
    have hlist := hlaid.nodup
    rw [← hstructs, List.map_append, List.map_append] at hlist
    intro hmem
    refine (List.nodup_append.1 hlist.of_append_left).2.2 _ hmem _ (List.mem_singleton.2 rfl) ?_
    exact hname.symm
  rw [placeOf, placeOf, ← hstructs, List.map_append, List.map_append, List.append_assoc,
    List.idxOf_append_of_mem hbefore, List.idxOf_append_of_notMem hnew]
  exact (List.idxOf_lt_length_of_mem hbefore).trans_le (Nat.le_add_right _ _)

/-! ## Structs in another order -/

section Rearranged

variable {P : Span → Span → Prop} {names' : Names} {forms' : List StructForm}

theorem StructForm.Matches.flip {form form' : StructForm} (h : form.Matches P form') :
    form'.Matches (flip P) form :=
  ⟨h.name.symm, List.Forall₂.flip (h.fields.imp fun _ _ ht => ht.flip), h.span⟩

theorem Names.ReadsField.carry (hnames : names.SameTypes names') {t t' : Tree} {field : String × Ty}
    (h : names.ReadsField t field) (ht : t.Matches P t') : names'.ReadsField t' field := by
  obtain ⟨nameTree, typeTree, hpair, hname, htype⟩ := h.read
  obtain ⟨⟨nameTree', typeTree'⟩, hpair', hn, hty⟩ := (pairOf_upheld ht _).ok hpair
  obtain ⟨_, hname', rfl⟩ := (declaredName_upheld hn .field).ok hname
  obtain ⟨_, htype', heq⟩ := (resolveType_upheld hnames.type hty).ok htype
  exact ⟨⟨nameTree', typeTree', hpair', hname', heq ▸ htype'⟩, h.storable⟩

theorem Names.ReadsFields.carry (hnames : names.SameTypes names') {form form' : StructForm}
    {fields : List (String × Ty)} (h : names.ReadsFields form fields)
    (hform : form.Matches P form') :
    names'.ReadsFields form' fields :=
  ⟨(forall₂_through hform.fields h.each).imp
    fun _ _ ⟨_, _, ht, hread⟩ => hread.carry hnames ht, h.nodup⟩

variable (hnames : names.SameTypes names') (hforms : Rearranged (StructForm.Matches P) forms forms')

include hnames hforms

/-- Structs are ranked alike in every order. -/
theorem Names.Ranked.carry {rank : String → Nat} (h : names.Ranked forms rank) :
    names'.Ranked forms' rank := by
  intro form' hform'
  obtain ⟨form, hform, hmatch⟩ := hforms.exists_left hform'
  obtain ⟨fields, hread, hbelow⟩ := h form hform
  refine ⟨fields, hread.carry hnames hmatch, fun f hf inner' hinner' => ?_⟩
  have htype := Names.ownStruct?_eq_some hinner'
  obtain ⟨inner, hinner, hname⟩ := hforms.exists_left (Names.mem_of_ownStruct? hinner')
  obtain ⟨found, hfound⟩ :
    ∃ found, names.ownStruct? forms (.struct ⟨names.home, inner.name⟩) = some found :=
    Names.exists_ownStruct? (List.mem_map.2 ⟨inner, hinner, rfl⟩)
  have hfoundname : inner.name = found.name := by
    have heq := Names.ownStruct?_eq_some hfound
    injection heq with heq
    exact congrArg StructRef.name heq
  rw [hname.name, hmatch.name, hfoundname]
  refine hbelow f hf found ?_
  rw [htype, hnames.home, hname.name]
  exact hfound

omit hforms in
/-- A field of a struct is read alike in both. -/
theorem Names.FieldOf.eq_of_matches {done done' : List StructDef} {t t' : Tree}
    {field field' : String × Ty} (h : names.FieldOf forms done t field)
    (h' : names'.FieldOf forms' done' t' field') (ht : t.Matches P t') :
    field = field' := by
  obtain ⟨nameTree, typeTree, s, rfl, hname, htype⟩ := h.shape
  obtain ⟨nameTree', typeTree', s', rfl, hname', htype'⟩ := h'.shape
  obtain _ | ⟨-, hitems⟩ := ht
  obtain ⟨hn, hrest⟩ := List.forall₂_cons.1 hitems
  obtain ⟨hty, -⟩ := List.forall₂_cons.1 hrest
  obtain ⟨_, htype'', heq⟩ := (resolveType_upheld hnames.type hty).ok htype
  rw [hn.symbol?, hname] at hname'
  rw [htype'', ← heq] at htype'
  exact Prod.ext (Option.some.inj hname') (Except.ok.inj htype')

/-- A struct whose fields hold structs that are laid out in the other order too is laid out there in
the end, with the same layout. -/
theorem layout_rearranged (houtlines : names.Outlines forms) (houtlines' : names'.Outlines forms')
    (hnodup' : (forms'.map (·.name)).Nodup) {structs' done : List StructDef}
    (h' : layOutAll names' forms' = .ok structs') (hdone : done ⊆ structs') {form : StructForm}
    (hform : form ∈ forms) {fields : List (String × Ty)}
    (hfields : List.Forall₂ (names.FieldOf forms done) form.fields fields) :
    ∃ d ∈ structs', d.name = form.name ∧
      Layout.ofFields? (names.withStructs done).layouts fields = some d.layout := by
  obtain ⟨hlaid', hall'⟩ := Names.layOutAll_laidOut h'
  obtain ⟨form', hform', hmatch⟩ := hforms.exists_right hform
  obtain ⟨d, hd, hname⟩ := List.mem_map.1 (hall' form' hform')
  obtain ⟨before, form'', fields', hends⟩ := hlaid'.ends houtlines' d hd
  obtain rfl := List.inj_on_of_nodup_map hnodup' hends.mem hform' (hends.name.symm.trans hname)
  have hsame : fields = fields' := by
    have hboth := (forall₂_through (forall₂_through hmatch.fields hfields) hends.holds).imp
      fun _ _ ⟨_, _, ⟨_, _, ht, hf⟩, hf'⟩ => hf.eq_of_matches hnames hf' ht
    rwa [List.forall₂_eq_eq_eq] at hboth
  refine ⟨d, hd, hname.trans hmatch.name, ?_⟩
  rw [hsame, ← hends.layout]
  refine (Names.ofFields?_congr fun f hf => ?_).symm
  obtain ⟨t, -, hfield⟩ := exists_of_forall₂ hfields (hsame ▸ hf)
  refine Ty.size_eq_of_find? fun ref href => ?_
  rw [Names.withStructs, Names.withStructs, hnames.home, hnames.layouts]
  dsimp only
  by_cases hhome : ref.home = names.home
  · rw [if_pos hhome, if_pos hhome]
    obtain ⟨e, hfound, he, hname⟩ := exists_find? (hfield.mem_of_own houtlines href hhome)
    rw [hfound, ← hname, find?_of_nodup hlaid'.nodup (hdone he)]
  · rw [if_neg hhome, if_neg hhome]

/-- **A struct has one layout in every order.** -/
theorem Names.LaidOut.subset_rearranged (houtlines : names.Outlines forms)
    (houtlines' : names'.Outlines forms') (hnodup' : (forms'.map (·.name)).Nodup)
    {structs' done : List StructDef} (h' : layOutAll names' forms' = .ok structs')
    (h : names.LaidOut forms done) : done ⊆ structs' := by
  induction h with
  | nil => exact List.nil_subset _
  | @snoc done form fields layout hdone hform hnew hfields hlayout ih =>
    obtain ⟨d, hd, hname, hsome⟩ :=
      layout_rearranged hnames hforms houtlines houtlines' hnodup' h' ih hform hfields
    refine List.append_subset.2 ⟨ih, fun e he => ?_⟩
    obtain rfl : layout = d.layout := Option.some.inj (hlayout.symm.trans hsome)
    rw [List.mem_singleton.1 he, ← hname]
    exact hd

variable (hnames' : names'.SameTypes names)

include hnames'

/-- **Structs are laid out in every order or in none**, and come to the same layouts. -/
theorem layOutAll_rearranged (houtlines : names.Outlines forms)
    (houtlines' : names'.Outlines forms') (hnodup : (forms.map (·.name)).Nodup)
    {structs : List StructDef} (h : layOutAll names forms = .ok structs) :
    ∃ structs', layOutAll names' forms' = .ok structs' ∧ structs.Perm structs' := by
  have hnodup' : (forms'.map (·.name)).Nodup :=
    (hforms.map_perm fun _ _ hform => hform.name).nodup_iff.1 hnodup
  have hforms' := hforms.flip.imp fun _ _ hform => StructForm.Matches.flip hform
  obtain ⟨structs', h'⟩ := layOutAll_ok_of_rank
    ((ranked_of_layOutAll houtlines hnodup h).carry hnames hforms) fun struct hover => by
      -- what is laid out by then is so in the first order too, where the struct has a layout
      obtain ⟨done, form, fields, hlaid, hform, -, hfields, hnone⟩ := hover
      have hdone := hlaid.subset_rearranged hnames' hforms' houtlines' houtlines hnodup h
      obtain ⟨d, -, -, hsome⟩ :=
        layout_rearranged hnames' hforms' houtlines' houtlines hnodup h hdone hform hfields
      rw [hnone] at hsome
      cases hsome
  refine ⟨structs', h', (List.perm_ext_iff_of_nodup ?_ ?_).2 fun d => ⟨fun hd => ?_, fun hd => ?_⟩⟩
  · exact (Names.layOutAll_laidOut h).1.nodup.of_map
  · exact (Names.layOutAll_laidOut h').1.nodup.of_map
  · exact (Names.layOutAll_laidOut h).1.subset_rearranged hnames hforms houtlines
      houtlines' hnodup' h' hd
  · exact (Names.layOutAll_laidOut h').1.subset_rearranged hnames' hforms' houtlines'
      houtlines hnodup h hd

end Rearranged

end Kiln
