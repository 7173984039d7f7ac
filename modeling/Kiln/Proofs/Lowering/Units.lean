import Kiln.Proofs.Lowering.Following
import Kiln.Proofs.Machine.Mirroring
/-!
# Units lowered twice

The passes over a unit, each done twice: on definitions that match, and with names of which the
second serve as the first. So the whole of lowering is carried over from one tree to a tree that
matches, and from some dependencies to others that mean the same wherever the first mean anything
(`lowerUnit_upheld`).
-/

namespace Kiln

variable {P : Span → Span → Prop} {R : Callee → Callee → Prop}

/-! ## Definitions -/

mutual

/-- Units that match define what matches, in the same order. -/
theorem definitions_match : ∀ {t t' : Tree}, t.Matches P t' →
    List.Forall₂ (Tree.Matches P) (definitions t) (definitions t')
  | _, _, .leaf h => .cons (.leaf h) .nil
  | _, _, .node h .nil => .cons (.node h .nil) .nil
  | _, _, .node h (.cons hhead hrest) => by
    rw [definitions, definitions, hhead.symbol?]
    split
    · exact definitionsAll_match hrest
    · exact .cons (.node h (.cons hhead hrest)) .nil

theorem definitionsAll_match : ∀ {ts ts' : List Tree}, List.Forall₂ (Tree.Matches P) ts ts' →
    List.Forall₂ (Tree.Matches P) (definitionsAll ts) (definitionsAll ts')
  | _, _, .nil => .nil
  | _, _, .cons h hs => List.rel_append (definitions_match h) (definitionsAll_match hs)

end

/-- Structs of one name, with fields that match. -/
structure StructForm.Matches (P : Span → Span → Prop) (s s' : StructForm) : Prop where
  name : s'.name = s.name
  fields : List.Forall₂ (Tree.Matches P) s.fields s'.fields
  span : P s.span s'.span

/-- Outlines of definitions that match. -/
structure Outline.Matches (P : Span → Span → Prop) (o o' : Outline) : Prop where
  structs : List.Forall₂ (StructForm.Matches P) o.structs o'.structs
  functions : List.Forall₂ (Tree.Matches P) o.functions o'.functions
  globals : List.Forall₂ (Tree.Matches P) o.globals o'.globals

/-- Elements that match are known by the same keys. -/
theorem any_eq_of_forall₂ {α β : Type} {Q : α → β → Prop} {p : α → Bool}
    {q : β → Bool} {as : List α} {bs : List β} (h : List.Forall₂ Q as bs)
    (hpq : ∀ a b, Q a b → q b = p a) : bs.any q = as.any p := by
  induction h with
  | nil => rfl
  | cons hab _ ih => rw [List.any_cons, List.any_cons, hpq _ _ hab, ih]

theorem Outline.add_upheld {o o' : Outline} (ho : o.Matches P o') {t t' : Tree}
    (h : t.Matches P t') :
    Upheld P (Outline.Matches P) (o.add t) (o'.add t') := by
  have hform := h.form? "struct"
  unfold Outline.add
  rw [h.head?]
  generalize t.form? "struct" = found at hform ⊢
  generalize t'.form? "struct" = found' at hform ⊢
  cases hform with
  | none =>
    split
    · rename_i heq
      cases heq
    · rename_i heq
      cases heq
    · exact .value ⟨ho.structs, List.rel_append ho.functions (.cons h .nil), ho.globals⟩
    · exact .value ⟨ho.structs, ho.functions, List.rel_append ho.globals (.cons h .nil)⟩
    · exact .refuse h.span trivial
  | some hitems =>
    cases hitems with
    | nil => exact .refuse h.span trivial
    | cons hname hfields =>
      refine (declaredName_upheld hname .struct).bind fun name _ heq => ?_
      cases heq
      rw [any_eq_of_forall₂ ho.structs (p := (·.name == name)) fun s s' hs => by rw [hs.name]]
      split
      · exact .refuse hname.span trivial
      · exact .value ⟨List.rel_append ho.structs (.cons ⟨rfl, hfields, h.span⟩ .nil), ho.functions,
          ho.globals⟩

theorem Outline.ofUnit_upheld {root root' : Tree} (h : root.Matches P root') :
    Upheld P (Outline.Matches P) (Outline.ofUnit root) (Outline.ofUnit root') :=
  .foldlM (definitions_match h) (fun _ _ _ _ ho ht => Outline.add_upheld ho ht) ⟨.nil, .nil, .nil⟩

/-! ## Structs -/

section Structs

variable {names names' : Names} {forms forms' : List StructForm}

/-- Structs of a unit are found under the same names. -/
theorem find?_match {s : String} (h : List.Forall₂ (StructForm.Matches P) forms forms') :
    Option.Rel (StructForm.Matches P) (forms.find? (·.name = s)) (forms'.find? (·.name = s)) := by
  induction h with
  | nil => exact .none
  | cons hs _ ih =>
    rw [List.find?_cons, List.find?_cons, hs.name]
    split
    · exact .some hs
    · exact ih

/-- The names mean the same types, and are those of one module, which knows the same layouts. -/
structure Names.SameTypes (names names' : Names) : Prop where
  home : names'.home = names.home
  layouts : names'.layouts = names.layouts
  type : ∀ {name : String} {t : Ty}, names.type? name = some t → names'.type? name = some t

theorem Names.SameTypes.withStructs (h : names.SameTypes names') (structs : List StructDef) :
    (names.withStructs structs).SameTypes (names'.withStructs structs) := by
  refine ⟨h.home, ?_, h.type⟩
  rw [Names.withStructs, Names.withStructs, h.layouts, h.home]

variable (hforms : List.Forall₂ (StructForm.Matches P) forms forms')
  (hnames : names.SameTypes names')

include hforms hnames

theorem ownStruct?_match (t : Ty) : Option.Rel (StructForm.Matches P) (names.ownStruct? forms t)
    (names'.ownStruct? forms' t) := by
  cases t with
  | struct ref =>
    rw [Names.ownStruct?, Names.ownStruct?, hnames.home]
    split
    · exact find?_match hforms
    · exact .none
  | _ => exact .none

theorem layOutField_upheld
    {lay lay' : StructForm → List StructDef → Except LoweringError (List StructDef)}
    (hlay : ∀ form form' done, form.Matches P form' →
      UpheldUnless (fun _ => True) P Eq (lay form done) (lay' form' done))
    (acc : List (String × Ty) × List StructDef) {field field' : Tree} (h : field.Matches P field') :
    UpheldUnless (fun _ => True) P Eq (layOutField names forms lay acc field)
      (layOutField names' forms' lay' acc field') := by
  refine .bind (.upheld (pairOf_upheld h _))
    fun ⟨nameTree, typeTree⟩ ⟨nameTree', typeTree'⟩ _ ⟨hname, htype⟩ => ?_
  refine .bind (.upheld (declaredName_upheld hname .field)) fun name _ _ heq => ?_
  cases heq
  refine .bind (.upheld (resolveType_upheld hnames.type htype)) fun t _ _ heq => ?_
  cases heq
  have hheld := ownStruct?_match hforms hnames t
  generalize names.ownStruct? forms t = held at hheld ⊢
  generalize names'.ownStruct? forms' t = held' at hheld ⊢
  -- what is checked of the field itself, once the struct it holds is done
  have hfinish : ∀ done : List StructDef, Upheld P Eq
      (if !t.isStorable then refuse (.unstorableField name t) typeTree.span
        else if acc.1.any (·.1 == name) then refuse (.declaredTwice .field name) field.span
        else pure (acc.1 ++ [(name, t)], done))
      (if !t.isStorable then refuse (.unstorableField name t) typeTree'.span
        else if acc.1.any (·.1 == name) then refuse (.declaredTwice .field name) field'.span
        else pure (acc.1 ++ [(name, t)], done)) := by
    intro done
    split
    · exact .refuse htype.span trivial
    · split
      · exact .refuse h.span trivial
      · exact .value rfl
  cases hheld with
  | none => exact .upheld (hfinish acc.2)
  | some hinner =>
    refine (hlay _ _ acc.2 hinner).bind fun done _ _ heq => ?_
    cases heq
    exact .upheld (hfinish done)

theorem layOut_upheld : ∀ (depth : Nat) (around : List String) (form form' : StructForm)
    (done : List StructDef), form.Matches P form' → UpheldUnless (fun _ => True) P Eq
      (layOut names forms depth around form done) (layOut names' forms' depth around form' done)
  | 0, _, _, _, _, _ => .upheld (.value rfl)
  | depth + 1, around, form, form', done, h => by
    rw [layOut, layOut, h.name]
    split
    · exact .upheld (.value rfl)
    · split
      · exact .upheld (.refuse h.span trivial)
      · have hfields : UpheldUnless (fun _ => True) P Eq
            (form.fields.foldlM (layOutField names forms
              (layOut names forms depth (form.name :: around))) ([], done))
            (form'.fields.foldlM (layOutField names' forms'
              (layOut names' forms' depth (form.name :: around)))
              ([], done)) := by
          refine .foldlM h.fields (fun acc _ _ _ heq hfield => ?_) rfl
          cases heq
          exact layOutField_upheld hforms hnames
            (layOut_upheld depth (form.name :: around)) acc hfield
        refine hfields.bind fun ⟨fields, done⟩ _ _ heq => ?_
        cases heq
        dsimp only
        rw [(hnames.withStructs done).layouts]
        split
        · exact .upheld (.value rfl)
        · exact .givenUp rfl trivial h.span

/-- Structs are laid out alike, and where the host gives up it does so on the first. -/
theorem layOutAll_upheld : UpheldUnless
    (fun struct => ∃ s, layOutAll names forms = .error ⟨.oversized struct, s⟩) P Eq
    (layOutAll names forms) (layOutAll names' forms') := by
  have hall :
      UpheldUnless (fun _ => True) P Eq (layOutAll names forms) (layOutAll names' forms') := by
    unfold layOutAll
    rw [hforms.length_eq]
    refine .foldlM hforms (fun done _ form form' heq h => ?_) rfl
    cases heq
    exact layOut_upheld hforms hnames _ _ _ _ _ h
  exact hall.imp fun struct s h => ⟨s, h⟩

end Structs

/-! ## Functions and globals -/

/-- Functions of one signature, with bodies that match. -/
structure FunctionForm.Matches (P : Span → Span → Prop) (f f' : FunctionForm) : Prop where
  signature : f'.signature = f.signature
  body : List.Forall₂ (Tree.Matches P) f.body f'.body
  span : P f.span f'.span

/-- Globals of one name and type, with initialisers that match. -/
structure GlobalForm.Matches (P : Span → Span → Prop) (g g' : GlobalForm) : Prop where
  global : g'.global = g.global
  init : g.init.Matches P g'.init

/-- Initialisers that are the same but for the functions they call. -/
structure Initialiser.Like (P : Span → Span → Prop) (R : Callee → Callee → Prop)
    (i i' : Initialiser) :
    Prop where
  slots : i'.slots = i.slots
  code : i.code.Like R i'.code
  span : P i.span i'.span

/-- The last elements match. -/
theorem getLast?_of_forall₂ {α β : Type} {Q : α → β → Prop} {as : List α} {bs : List β}
    (h : List.Forall₂ Q as bs) : Option.Rel Q as.getLast? bs.getLast? := by
  induction h with
  | nil => exact .none
  | cons hab hrest ih =>
    cases hrest with
    | nil => exact .some hab
    | cons _ _ =>
      rw [List.getLast?_cons_cons, List.getLast?_cons_cons]
      exact ih

/-- Initialisers that call the same functions and stand at the same place are the same. -/
theorem Initialiser.Like.eq {i i' : Initialiser} (h : i.Like Eq Eq i') : i' = i := by
  obtain ⟨slots, code, span⟩ := i
  obtain ⟨slots', code', span'⟩ := i'
  rw [Initialiser.mk.injEq]
  exact ⟨h.slots, h.code.eq, h.span.symm⟩

section Definitions

variable {names names' : Names}

section Types

variable (htype : ∀ {name : String} {t : Ty}, names.type? name = some t →
    names'.type? name = some t)

include htype

theorem param_upheld (before : List Param) {t t' : Tree} (h : t.Matches P t') :
    Upheld P Eq (names.param before t) (names'.param before t') := by
  refine (pairOf_upheld h _).bind
    fun ⟨nameTree, typeTree⟩ ⟨nameTree', typeTree'⟩ ⟨hname, hspelled⟩ => ?_
  refine (declaredName_upheld hname .parameter).bind fun name _ heq => ?_
  cases heq
  split
  · exact .refuse h.span trivial
  · refine (resolveType_upheld htype hspelled).bind fun t _ heq => ?_
    cases heq
    exact .value rfl

theorem function_upheld {before before' : List FunctionForm}
    (hbefore : List.Forall₂ (FunctionForm.Matches P) before before') {t t' : Tree}
    (h : t.Matches P t') :
    Upheld P (List.Forall₂ (FunctionForm.Matches P)) (names.function before t)
      (names'.function before' t') := by
  have hform := h.form? "fun"
  unfold Names.function
  generalize t.form? "fun" = found at hform ⊢
  generalize t'.form? "fun" = found' at hform ⊢
  rcases hform with (_ | ⟨hname, _ | @⟨params, params', _, _, hparams, _ | ⟨hresult, hbody⟩⟩⟩) | _
  · exact .refuse h.span trivial
  · exact .refuse h.span trivial
  · exact .refuse h.span trivial
  · refine (declaredName_upheld hname .function).bind fun name _ heq => ?_
    cases heq
    rw [any_eq_of_forall₂ hbefore (p := (·.signature.name == name))
      fun f f' hf => by rw [hf.signature]]
    have hitems := hparams.items?
    generalize params.items? = found at hitems ⊢
    generalize params'.items? = found' at hitems ⊢
    split
    · exact .refuse hname.span trivial
    · cases hitems with
      | none => exact .refuse hparams.span trivial
      | some hitems =>
        have hlist := Upheld.foldlM (P := P) (R := Eq) (f := names.param) (g := names'.param) hitems
          (fun before _ _ _ heq ht => heq ▸ param_upheld htype before ht)
          (rfl : ([] : List Param) = [])
        refine hlist.bind fun params _ heq => ?_
        cases heq
        refine (resolveType_upheld htype hresult).bind fun result _ heq => ?_
        cases heq
        exact .value (List.rel_append hbefore (.cons ⟨rfl, hbody, h.span⟩ .nil))
  · exact .refuse h.span trivial

theorem global_upheld {before before' : List GlobalForm}
    (hbefore : List.Forall₂ (GlobalForm.Matches P) before before') {t t' : Tree}
    (h : t.Matches P t') :
    Upheld P (List.Forall₂ (GlobalForm.Matches P)) (names.global before t)
      (names'.global before' t') := by
  have hform := h.form? "global"
  unfold Names.global
  generalize t.form? "global" = found at hform ⊢
  generalize t'.form? "global" = found' at hform ⊢
  rcases hform with (_ | ⟨hname, _ | ⟨hspelled, _ | ⟨hinit, _ | ⟨_, _⟩⟩⟩⟩) | _
  · exact .refuse h.span trivial
  · exact .refuse h.span trivial
  · exact .refuse h.span trivial
  · refine (declaredName_upheld hname .global).bind fun name _ heq => ?_
    cases heq
    rw [any_eq_of_forall₂ hbefore (p := (·.global.name == name)) fun g g' hg => by rw [hg.global]]
    split
    · exact .refuse hname.span trivial
    · refine (resolveType_upheld htype hspelled).bind fun t _ heq => ?_
      cases heq
      exact .value (List.rel_append hbefore (.cons ⟨rfl, hinit⟩ .nil))
  · exact .refuse h.span trivial
  · exact .refuse h.span trivial

end Types

variable (hnames : names.Serve R names')

include hnames

theorem lowerFunction_upheld {f f' : FunctionForm} (h : f.Matches P f') :
    Upheld P (Function.Like R) (names.lowerFunction f) (names'.lowerFunction f') := by
  have hlast : P ((f.body.getLast?.map Tree.span).getD f.span)
      ((f'.body.getLast?.map Tree.span).getD f'.span) := by
    have hrel := getLast?_of_forall₂ h.body
    generalize f.body.getLast? = last at hrel ⊢
    generalize f'.body.getLast? = last' at hrel ⊢
    cases hrel with
    | none => exact h.span
    | some ht => exact ht.span
  unfold Names.lowerFunction
  rw [h.signature]
  refine (Lowering.sequence_carried (Lowering.operands_paired hnames h.body) _).bind ?_
  rintro ⟨⟨c, t⟩, ls⟩ ⟨⟨c', t'⟩, ls'⟩ ⟨⟨hc, ht⟩, hls⟩
  cases ht
  cases hls
  dsimp only
  split
  · split
    · exact .value ⟨rfl, rfl, rfl, .code _ hc⟩
    · exact .value ⟨rfl, rfl, rfl, .code _ (.block (.cons hc (.cons (.const _) .nil)))⟩
  · split
    · exact .value ⟨rfl, rfl, rfl, .code _ hc⟩
    · exact .refuse hlast trivial

theorem lowerGlobal_upheld {g g' : GlobalForm} (h : g.Matches P g') :
    Upheld P (Initialiser.Like P R) (names.lowerGlobal g) (names'.lowerGlobal g') := by
  unfold Names.lowerGlobal
  rw [h.global]
  refine (Lowering.ofTree_carried hnames h.init _).bind ?_
  rintro ⟨⟨c, t⟩, ls⟩ ⟨⟨c', t'⟩, ls'⟩ ⟨⟨hc, ht⟩, hls⟩
  cases ht
  cases hls
  dsimp only
  split
  · exact .value ⟨rfl, hc, h.init.span⟩
  · exact .refuse h.init.span trivial

end Definitions

/-! ## Dependencies that cover others -/

/-- Wherever names mean something with the first dependencies, they mean the same with the
second. -/
structure Module.Cover (deps deps' : List Module) : Prop where
  type : ∀ (names : Names) {name : String} {t : Ty}, { names with deps }.type? name = some t →
    { names with deps := deps' }.type? name = some t
  global : ∀ (names : Names) {name : String} {g : ModuleId × Nat × Ty},
    { names with deps }.foreignGlobal? name = some g →
    { names with deps := deps' }.foreignGlobal? name = some g
  function : ∀ (names : Names) {name : String} {f : Callee × List Param × Ty},
    { names with deps }.function? name = some f →
    { names with deps := deps' }.function? name = some f

theorem Module.Cover.refl (deps : List Module) : Module.Cover deps deps :=
  ⟨fun _ _ _ h => h, fun _ _ _ h => h, fun _ _ _ h => h⟩

/-- Names with the second dependencies serve as those with the first. -/
theorem Module.Cover.serve {deps deps' : List Module} (h : Module.Cover deps deps')
    (names : Names) :
    Names.Serve Eq { names with deps } { names with deps := deps' } :=
  ⟨rfl, h.type names, fun _ => rfl, h.global names, fun hf => ⟨_, h.function names hf, rfl⟩⟩

/-- What two units come to that are the same but for the modules they depend on. -/
structure LoweredUnit.Like (P : Span → Span → Prop) (name' : String) (deps' : List Module)
    (u u' : LoweredUnit) :
    Prop where
  module : u'.module = { u.module with name := name', deps := deps'.map (·.id) }
  initialisers : List.Forall₂ (Initialiser.Like P Eq) u.initialisers u'.initialisers

/-- Elements that match have the same keys. -/
theorem map_eq_of_forall₂ {α β γ : Type} {Q : α → β → Prop} {f : α → γ} {g : β → γ}
    {as : List α} {bs : List β} (h : List.Forall₂ Q as bs) (hfg : ∀ a b, Q a b → g b = f a) :
    bs.map g = as.map f := by
  induction h with
  | nil => rfl
  | cons hab _ ih => rw [List.map_cons, List.map_cons, hfg _ _ hab, ih]

/-- The host gives up on the unit where the struct of the name is laid out. -/
def Overflows (lib : Library) (deps : List Module) (root : Tree) (struct : String) : Prop :=
  ∃ o s, Outline.ofUnit root = .ok o ∧
    layOutAll ⟨lib.nextId, deps, lib.layouts, o.structs.map (·.name), [], []⟩ o.structs =
      .error ⟨.oversized struct, s⟩

/-- **What a unit comes to, one that matches comes to as well**, against dependencies that cover its
own; and what it is refused for is in its own tree. -/
theorem lowerUnit_upheld {lib : Library} {deps deps' : List Module}
    (hdeps : Module.Cover deps deps') {root root' : Tree} (h : root.Matches P root')
    (name name' : String) :
    UpheldUnless (Overflows lib deps root) P (LoweredUnit.Like P name' deps')
      (lowerUnit lib name deps root) (lowerUnit lib name' deps' root') := by
  unfold lowerUnit
  refine .bind (.upheld (Outline.ofUnit_upheld h)) fun o o' houtline ho => ?_
  rw [map_eq_of_forall₂ ho.structs (f := (·.name)) fun _ _ hs => hs.name]
  let plain : Names := ⟨lib.nextId, deps, lib.layouts, o.structs.map (·.name), [], []⟩
  have hplain : plain.SameTypes { plain with deps := deps' } := ⟨rfl, rfl, hdeps.type plain⟩
  refine ((layOutAll_upheld ho.structs hplain).imp fun struct s hall => ⟨o, s, houtline, hall⟩).bind
    fun structs _ _ heq => ?_
  cases heq
  have htypes := hplain.withStructs structs
  -- from here on no struct is laid out any more
  refine .upheld ?_
  refine (Upheld.foldlM ho.functions
    (fun _ _ _ _ hb ht => function_upheld htypes.type hb ht) .nil).bind
    fun forms forms' hforms => ?_
  refine (Upheld.foldlM ho.globals (fun _ _ _ _ hb ht => global_upheld htypes.type hb ht) .nil).bind
    fun globals globals' hglobals => ?_
  rw [map_eq_of_forall₂ hforms (f := (·.signature)) fun _ _ hf => hf.signature,
    map_eq_of_forall₂ hglobals (f := (·.global)) fun _ _ hg => hg.global]
  have hserve := hdeps.serve { plain.withStructs structs with
    signatures := forms.map (·.signature), globals := globals.map (·.global) }
  refine (Upheld.mapM hforms fun _ _ hf => lowerFunction_upheld hserve hf).bind fun fs fs' hfs => ?_
  refine (Upheld.mapM hglobals fun _ _ hg => lowerGlobal_upheld hserve hg).bind fun is is' his => ?_
  refine .value ⟨?_, his⟩
  have hsame : List.Forall₂ Eq fs fs' := hfs.imp fun _ _ hf => hf.eq.symm
  rw [List.forall₂_eq_eq_eq] at hsame
  rw [hsame]
  rfl

end Kiln
