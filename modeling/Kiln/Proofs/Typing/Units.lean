import Kiln.Proofs.Lowering.Structs
import Kiln.Proofs.Source.Preservation
import Kiln.Proofs.Typing.Forms
import Kiln.Proofs.Typing.Soundness
import Kiln.Proofs.Workspace.Compiled
/-!
# Lowering a unit gives typed functions

What a library has is an interface (`Library.interface`), and what the names of a unit mean is in
the interface of the library that the unit's module is put in (`Lowered.knows`). Every function and
every initialiser of a unit that is accepted is therefore typed in it (`Lowered.functions_typed`,
`Lowered.initialisers_typed`), however lax values are, as long as branches need not agree: with no
laxity for unassigned slots the unit has to be careful.
-/

namespace Kiln

variable {P : Interface} {names : Names}

/-! ## Bodies -/

/-- The slots that count as assigned when a call of a function with `n` parameters begins. -/
def Assigned.start (L : Laxity) (n : Nat) : Assigned := {i | L.unset ∨ i < n}

theorem Assigned.start_atStart (L : Laxity) (n : Nat) : Assigned.AtStart L n (.start L n) :=
  (em L.unset).imp_right fun hset _ hi => hi.resolve_left hset

namespace Locals.Typed

theorem empty : Locals.empty.Typed P [] (.start P.laxity 0) := by
  refine ⟨rfl,
    fun scope hscope l hl => ?_, fun hunset => Set.eq_univ_of_forall fun _ => .inl hunset⟩
  cases List.mem_singleton.1 hscope
  cases hl

/-- Parameters own the slots from the first on, which are assigned when a call begins. -/
theorem declareAll : ∀ (params : List Param) {ls : Locals} {T : List Ty},
    ls.Typed P T (.start P.laxity T.length) →
      (params.foldl (fun ls p => ls.declare p.1 p.2) ls).Typed P (T ++ params.map (·.2))
        (.start P.laxity (T ++ params.map (·.2)).length)
  | [], _, T, h => by
    rw [List.map_nil, List.append_nil]
    exact h
  | p :: params, ls, T, h => by
    have hstart : insert ls.slots (Assigned.start P.laxity T.length) =
        .start P.laxity (T ++ [p.2]).length := by
      ext i
      rw [h.slots, List.length_append, List.length_singleton, Set.mem_insert_iff]
      exact ⟨fun hi => hi.elim (fun heq => .inr (by omega)) (Or.imp_right fun hlt => by omega),
        fun hi => hi.elim (fun hunset => .inr (.inl hunset)) fun hlt =>
          (Nat.lt_succ_iff_lt_or_eq.1 hlt).elim (fun h => .inr (.inr h)) .inl⟩
    have hdeclared :
        (ls.declare p.1 p.2).Typed P (T ++ [p.2]) (.start P.laxity (T ++ [p.2]).length) :=
      hstart ▸ h.declare p.1 p.2
    have hrest := declareAll params hdeclared
    rwa [List.append_assoc] at hrest

end Locals.Typed

/-- **The body of a function takes its parameters to its result.** What a body of another type gives
is dropped by a function that returns nothing. -/
theorem Interface.Knows.lowerFunction (hP : P.Knows names) {f : FunctionForm} {g : Function}
    (h : names.lowerFunction f = .ok g)
    (hcareful : P.laxity.unset ∨ ∀ t ∈ f.body, t.careful = true) :
    g.Typed P names.home := by
  obtain ⟨⟨⟨code, type⟩, ls⟩, hrun, h⟩ := ok_of_bind h
  have hbody : AllTypes P names.home False (f.body.map (Lowering.operand names)) := fun o ho => by
    obtain ⟨t, ht, rfl⟩ := List.mem_map.1 ho
    exact (hP.types t (hcareful.imp_right fun h => h t ht)).quieter False.elim
  obtain ⟨slots, B, hslots, -, hls, -, -, hcode⟩ :=
    hbody.sequence _ _ _ _ _ hrun (Locals.Typed.declareAll _ .empty)
  rw [List.nil_append] at hslots hcode
  rw [List.length_map] at hcode
  have htakes : ∀ {c : Code} {t : Ty},
      HasType P names.home slots (.start P.laxity f.signature.params.length) c t B →
        isAssignable f.signature.result t = true →
          c.Takes P names.home (f.signature.params.map (·.2)) f.signature.result ls.slots :=
    fun hc hassign => ⟨slots, _, _, B, hls.slots.symm, hslots,
      by rw [List.length_map]; exact Assigned.start_atStart _ _, hc, hassign⟩
  have hcode := hcode slots List.prefix_rfl
  dsimp only at h hcode
  split at h
  · rename_i hunit
    cases h
    show Code.Takes P names.home _ f.signature.result _ _
    split
    · rename_i htype
      exact htakes hcode (by rw [hunit, htype]; rfl)
    · exact htakes (.block (.cons hcode (.cons (.const (t := .unit) trivial) .nil)))
        (by rw [hunit]; rfl)
  · split at h
    · rename_i hassign
      cases h
      exact htakes hcode hassign
    · cases h

/-- **The initialiser of a global gives a value of the global's type.** -/
theorem Interface.Knows.lowerGlobal (hP : P.Knows names) {g : GlobalForm} {init : Initialiser}
    (h : names.lowerGlobal g = .ok init) (hcareful : P.laxity.unset ∨ g.init.careful = true) :
    init.code.Takes P names.home [] g.global.type init.slots := by
  obtain ⟨⟨⟨code, type⟩, ls⟩, hrun, h⟩ := ok_of_bind h
  obtain ⟨slots, B, -, -, hls, -, -, hcode⟩ := hP.types g.init hcareful _ _ _ _ _ hrun .empty
  dsimp only at h
  split at h
  · rename_i hassign
    cases h
    exact ⟨slots, _, type, B, hls.slots.symm, List.nil_prefix, Assigned.start_atStart _ 0,
      hcode slots List.prefix_rfl, hassign⟩
  · cases h

/-! ## Structs -/

theorem Layout.types_ofFields? {Γ : Layouts} {fields : List (String × Ty)} {l : Layout}
    (h : ofFields? Γ fields = some l) : l.fields.map (·.type) = fields.map (·.2) := by
  have hnamed := congrArg (List.map Prod.snd) (named_ofFields? h)
  rwa [List.map_map] at hnamed

namespace Names

/-- A struct that is laid out behind others changes none of them. -/
theorem withStructs_within (names : Names) (done : List StructDef) (d : StructDef) :
    (names.withStructs done).layouts.Within (names.withStructs (done ++ [d])).layouts := by
  intro ref l hl
  rw [withStructs] at hl ⊢
  dsimp only at hl ⊢
  split at hl
  · rename_i hhome
    obtain ⟨e, he, rfl⟩ := Option.map_eq_some_iff.1 hl
    rw [if_pos hhome, List.find?_append, he]
    rfl
  · rename_i hhome
    rwa [if_neg hhome]

theorem exists_find?_withStructs {structs : List StructDef} {ref : StructRef}
    (hhome : ref.home = names.home) (hname : ref.name ∈ structs.map (·.name)) :
    ∃ l, (names.withStructs structs).layouts.find? ref = some l := by
  obtain ⟨d, hd, heq⟩ := List.mem_map.1 hname
  obtain ⟨e, he⟩ : ∃ e, structs.find? (·.name = ref.name) = some e :=
    Option.isSome_iff_exists.1 (List.find?_isSome.2 ⟨d, hd, decide_eq_true heq⟩)
  exact ⟨e.layout, by rw [withStructs]; dsimp only; rw [if_pos hhome, he]; rfl⟩

variable {forms : List StructForm} {structs : List StructDef}

section Grounded

variable (hnames : names.Outlines forms)
  (hother : ∀ ref l, names.layouts.find? ref = some l → ref.home ≠ names.home)
  (hdeps : ∀ m ∈ names.deps, ∀ ref, ref.home = m.id → (m.layout? ref.name).isSome = true →
    ∃ l, names.layouts.find? ref = some l)

include hother

/-- Structs of other modules keep their layouts. -/
theorem within_withStructs (done : List StructDef) :
    names.layouts.Within (names.withStructs done).layouts := by
  intro ref l hl
  rw [withStructs]
  dsimp only
  rwa [if_neg (hother ref l hl)]

include hnames hdeps

/-- A field is grounded, as what it holds is laid out before. -/
theorem FieldOf.grounded {done : List StructDef} {tree : Tree} {field : String × Ty}
    (hΓ : (names.withStructs done).layouts.Grounded) (h : names.FieldOf forms done tree field) :
    field.2.Grounded (names.withStructs done).layouts (names.withStructs done).layouts.count := by
  refine hΓ.of_find? fun ref href => ?_
  obtain ⟨-, spelled, -, -, -, hresolve⟩ := h.shape
  rw [href] at hresolve
  rcases resolveType_struct hresolve with ⟨hhome, -⟩ | ⟨m, hm, hid, hlayout⟩
  · exact exists_find?_withStructs hhome (h.mem_of_own hnames href hhome)
  · obtain ⟨l, hl⟩ := hdeps m hm ref hid hlayout
    exact ⟨l, within_withStructs hother done ref l hl⟩

/-- **Structs of a unit are grounded**: each holds those before it, and structs of other modules. -/
theorem LaidOut.grounded (hΓ : names.layouts.Grounded) (h : names.LaidOut forms structs) :
    (names.withStructs structs).layouts.Grounded := by
  induction h with
  | nil =>
    intro ref l hl
    rw [withStructs] at hl
    dsimp only at hl
    split at hl
    · cases hl
    · exact (hΓ ref l hl).mono (within_withStructs hother []) (Nat.le_refl _)
  | @snoc done form fields layout hdone hform hnew hfields hlayout ih =>
    intro ref l hl
    have hin := names.withStructs_within done ⟨form.name, layout⟩
    have hcount : (names.withStructs (done ++ [⟨form.name, layout⟩])).layouts.count =
        (names.withStructs done).layouts.count + 1 := by
      rw [withStructs, withStructs, List.length_append, List.length_singleton]
      rfl
    rw [hcount]
    rcases hfind : (names.withStructs done).layouts.find? ref with _ | l'
    · -- the struct is the new one
      obtain rfl : layout = l := by
        rw [withStructs] at hfind hl
        dsimp only at hfind hl
        split at hl
        · rename_i hhome
          rw [if_pos hhome, Option.map_eq_none_iff] at hfind
          rw [List.find?_append, hfind, Option.none_or] at hl
          obtain ⟨d, hd, rfl⟩ := Option.map_eq_some_iff.1 hl
          rw [List.mem_singleton.1 (List.mem_of_find?_eq_some hd)]
        · rename_i hhome
          rw [if_neg hhome, hl] at hfind
          cases hfind
      refine ⟨_, hl, fun f hf => ?_⟩
      have hmem : f.type ∈ fields.map (·.2) :=
        Layout.types_ofFields? hlayout ▸ List.mem_map_of_mem hf
      obtain ⟨field, hfield, htype⟩ := List.mem_map.1 hmem
      obtain ⟨tree, -, hheld⟩ := exists_of_forall₂ hfields hfield
      rw [← htype]
      exact (hheld.grounded hnames hother hdeps ih).mono hin (Nat.le_refl _)
    · exact (ih ref l' hfind).mono hin (Nat.le_succ _)

end Grounded

end Names

/-! ## Units -/

mutual

/-- The definitions of a careful unit are careful. -/
theorem careful_of_mem_definitions : ∀ {root t : Tree}, root.careful = true → t ∈ definitions root →
    t.careful = true
  | .node (head :: rest) s, t, h, ht => by
    rw [definitions] at ht
    split at ht
    · exact careful_of_mem_definitionsAll
        (fun u hu => Tree.careful_of_mem h (List.mem_cons_of_mem _ hu)) ht
    · rwa [List.mem_singleton.1 ht]
  | .node [] s, t, h, ht | .leaf a s, t, h, ht => by
    rw [definitions] at ht
    · rwa [List.mem_singleton.1 ht]
    · exact fun _ _ _ heq => by cases heq

theorem careful_of_mem_definitionsAll : ∀ {ts : List Tree} {t : Tree},
    (∀ u ∈ ts, u.careful = true) → t ∈ definitionsAll ts → t.careful = true
  | u :: ts, t, h, ht => by
    rw [definitionsAll] at ht
    rcases List.mem_append.1 ht with ht | ht
    · exact careful_of_mem_definitions (h u List.mem_cons_self) ht
    · exact careful_of_mem_definitionsAll (fun v hv => h v (List.mem_cons_of_mem u hv)) ht

end

theorem Tree.careful_of_form? {t : Tree} {word : String} {rest : List Tree}
    (hform : t.form? word = some rest) (h : t.careful = true) : ∀ u ∈ rest, u.careful = true := by
  unfold Tree.form? at hform
  split at hform
  · split at hform
    · cases hform
      exact fun u hu => Tree.careful_of_mem h (List.mem_cons_of_mem _ hu)
    · cases hform
  · cases hform

/-- What is sorted out of a unit is among its definitions. -/
theorem Outline.subset_definitions {root : Tree} {o : Outline} (h : Outline.ofUnit root = .ok o) :
    o.functions ⊆ definitions root ∧ o.globals ⊆ definitions root := by
  have hstep : ∀ {t : Tree} {o o' : Outline}, o.add t = .ok o' →
      o'.functions ⊆ o.functions ++ [t] ∧ o'.globals ⊆ o.globals ++ [t] := by
    intro t o o' h
    unfold Outline.add at h
    split at h
    · cases h
    · obtain ⟨name, -, h⟩ := ok_of_bind h
      split at h
      · cases h
      · cases h
        exact ⟨List.subset_append_left _ _, List.subset_append_left _ _⟩
    · cases h
      exact ⟨List.Subset.refl _, List.subset_append_left _ _⟩
    · cases h
      exact ⟨List.subset_append_left _ _, List.Subset.refl _⟩
    · cases h
  have hfold : ∀ {ts : List Tree} {o o' : Outline}, ts.foldlM Outline.add o = .ok o' →
      o'.functions ⊆ o.functions ++ ts ∧ o'.globals ⊆ o.globals ++ ts := by
    intro ts
    induction ts with
    | nil =>
      intro o o' h
      cases h
      simp
    | cons t ts ih =>
      intro o o' h
      rw [List.foldlM_cons] at h
      obtain ⟨o₁, hadd, h⟩ := ok_of_bind h
      obtain ⟨hf, hg⟩ := hstep hadd
      obtain ⟨hf', hg'⟩ := ih h
      have hone : ∀ {xs ys : List Tree}, ys ⊆ xs ++ [t] → ys ++ ts ⊆ xs ++ t :: ts := fun h => by
        rw [List.append_cons]
        exact List.append_subset.2
          ⟨List.subset_append_of_subset_left ts h, List.subset_append_right _ _⟩
      exact ⟨List.Subset.trans hf' (hone hf), List.Subset.trans hg' (hone hg)⟩
  simpa using hfold h

/-- What a unit that was accepted comes to: what its names mean, its functions and globals before
their bodies were lowered, and what these were lowered to. -/
structure Lowered (lib : Library) (deps : List Module) (root : Tree) (names : Names)
    (forms : List FunctionForm) (globals : List GlobalForm) (u : LoweredUnit) : Prop where
  home : names.home = lib.nextId
  id : u.module.id = lib.nextId
  deps_eq : names.deps = deps
  layouts : names.layouts = (lib.push u.module).layouts
  structs : ∀ name ∈ names.structs, name ∈ u.module.structs.map (·.name)
  grounded : lib.layouts.Grounded → (∀ d ∈ deps, lib.find? d.id = some d) → names.layouts.Grounded
  signatures : names.signatures = forms.map (·.signature)
  globals_eq : names.globals = globals.map (·.global)
  module_globals : u.module.globals = names.globals
  functions : List.Forall₂ (fun f g => names.lowerFunction f = .ok g) forms u.module.functions
  initialisers : List.Forall₂ (fun g i => names.lowerGlobal g = .ok i) globals u.initialisers
  careful_body : root.careful = true → ∀ f ∈ forms, ∀ t ∈ f.body, t.careful = true
  inits : globals.map (·.init) = (definitions root).filterMap Source.Scenery.initOf?

/-- No module but the next has the next number. -/
theorem Library.ne_nextId {lib : Library} {d : Module} (h : lib.find? d.id = some d) :
    d.id ≠ lib.nextId := by
  intro heq
  obtain ⟨hlt, -⟩ := Array.getElem?_eq_some_iff.1 h
  rw [heq] at hlt
  exact Nat.lt_irrefl _ hlt

theorem Library.home_ne_nextId {lib : Library} {ref : StructRef} {l : Layout}
    (h : lib.layouts.find? ref = some l) : ref.home ≠ lib.nextId := by
  intro heq
  obtain ⟨m, hm, -⟩ := Option.bind_eq_some_iff.1 h
  obtain ⟨hlt, -⟩ := Array.getElem?_eq_some_iff.1 hm
  rw [heq] at hlt
  exact Nat.lt_irrefl _ hlt

/-- A struct of a module that is in the library has a layout. -/
theorem Library.exists_layout {lib : Library} {d : Module} (h : lib.find? d.id = some d)
    {ref : StructRef} (hhome : ref.home = d.id) (hlayout : (d.layout? ref.name).isSome = true) :
    ∃ l, lib.layouts.find? ref = some l := by
  obtain ⟨l, hl⟩ := Option.isSome_iff_exists.1 hlayout
  exact ⟨l, Option.bind_eq_some_iff.2 ⟨d, hhome ▸ h, hl⟩⟩

theorem lowered_of_lowerUnit {lib : Library} {name : String} {deps : List Module} {root : Tree}
    {u : LoweredUnit} (h : lowerUnit lib name deps root = .ok u) :
    ∃ names forms globals, Lowered lib deps root names forms globals u := by
  obtain ⟨o, ho, h⟩ := ok_of_bind h
  obtain ⟨structs, hstructs, h⟩ := ok_of_bind h
  obtain ⟨forms, hforms, h⟩ := ok_of_bind h
  obtain ⟨globals, hglobals, h⟩ := ok_of_bind h
  obtain ⟨functions, hfunctions, h⟩ := ok_of_bind h
  obtain ⟨initialisers, hinitialisers, h⟩ := ok_of_bind h
  cases h
  obtain ⟨hsubf, hsubg⟩ := Outline.subset_definitions ho
  let plain : Names := ⟨lib.nextId, deps, lib.layouts, o.structs.map (·.name), [], []⟩
  obtain ⟨hlaid, hnamed⟩ := Names.layOutAll_laidOut hstructs
  let names : Names :=
    { plain.withStructs structs with
      signatures := forms.map (·.signature)
      globals := globals.map (·.global) }
  refine ⟨names, forms, globals, ?_⟩
  refine ⟨rfl, rfl, rfl, Source.layouts_push plain rfl rfl rfl,
    fun name hname => ?_,
    fun hΓ hdeps => ?_, rfl, rfl, rfl, forall₂_of_mapM hfunctions, forall₂_of_mapM hinitialisers,
    fun hcareful f hf => ?_, ?_⟩
  · obtain ⟨form, hform, rfl⟩ := List.mem_map.1 hname
    exact hnamed form hform
  · exact hlaid.grounded ⟨rfl, fun m hm => Library.ne_nextId (hdeps m hm)⟩
      (fun ref l hl => Library.home_ne_nextId hl)
      (fun m hm ref hhome hlayout => Library.exists_layout (hdeps m hm) hhome hlayout) hΓ
  · have hstep : ∀ {before : List FunctionForm} {t : Tree} {after : List FunctionForm},
        (plain.withStructs structs).function before t = .ok after →
          ∃ f, after = before ++ [f] ∧ ∃ name params result,
            t.form? "fun" = some (name :: params :: result :: f.body) := by
      intro before t after h
      unfold Names.function at h
      split at h
      · rename_i hform
        obtain ⟨name, -, h⟩ := ok_of_bind h
        split at h
        · cases h
        · split at h
          · obtain ⟨params, -, h⟩ := ok_of_bind h
            obtain ⟨result, -, h⟩ := ok_of_bind h
            cases h
            exact ⟨_, rfl, _, _, _, hform⟩
          · cases h
      · cases h
    obtain ⟨fs, rfl, hall⟩ := foldlM_append hstep hforms
    obtain ⟨t, ht, -, name, params, result, hform⟩ := exists_of_forall₂ hall hf
    intro u hu
    refine Tree.careful_of_form? hform (careful_of_mem_definitions hcareful (hsubf ht)) u ?_
    simp [hu]
  · have hstep : ∀ {before : List GlobalForm} {t : Tree} {after : List GlobalForm},
        (plain.withStructs structs).global before t = .ok after →
          ∃ g, after = before ++ [g] ∧ Source.Scenery.initOf? t = some g.init := by
      intro before t after h
      unfold Names.global at h
      split at h
      · rename_i hform
        obtain ⟨name, -, h⟩ := ok_of_bind h
        split at h
        · cases h
        · obtain ⟨type, -, h⟩ := ok_of_bind h
          cases h
          exact ⟨_, rfl, by rw [Source.Scenery.initOf?, hform]⟩
      · cases h
    obtain ⟨gs, rfl, hall⟩ := foldlM_append hstep hglobals
    rw [← Source.Scenery.inits_ofUnit ho]
    exact (filterMap_eq_of_forall₂
      (List.forall₂_map_right_iff.2 (hall.imp fun _ _ h => h.elim fun _ h => h))).symm

/-- The initialisers of a careful unit are careful. -/
theorem Lowered.careful_init {lib : Library} {deps : List Module} {root : Tree}
    {forms : List FunctionForm} {globals : List GlobalForm} {u : LoweredUnit}
    (h : Lowered lib deps root names forms globals u) (hcareful : root.careful = true) :
    ∀ g ∈ globals, g.init.careful = true := by
  intro g hg
  have hmem : g.init ∈ (definitions root).filterMap Source.Scenery.initOf? :=
    h.inits ▸ List.mem_map_of_mem hg
  obtain ⟨t, ht, hinit⟩ := List.mem_filterMap.1 hmem
  unfold Source.Scenery.initOf? at hinit
  split at hinit
  · rename_i hform
    cases hinit
    exact Tree.careful_of_form? hform (careful_of_mem_definitions hcareful ht) _ (by simp)
  · cases hinit

/-! ## Libraries -/

namespace Library

variable {lib later : Library} {L : Laxity}

/-- What the modules of a library offer. -/
def interface (lib : Library) (L : Laxity) : Interface where
  laxity := L
  layouts := lib.layouts
  count := lib.modules.size
  global home i := (lib.find? home).bind fun m => (m.globals[i]?).map (·.type)
  function handle := (lib.function? handle).map fun f => (f.params.map (·.2), f.result)

/-- Every function of every module is typed by what the modules offer. -/
def Typed (lib : Library) (L : Laxity) : Prop :=
  ∀ handle f, lib.function? handle = some f → f.Typed (lib.interface L) handle.home

theorem Typed.describes (h : lib.Typed L) : (lib.interface L).Describes lib := by
  refine ⟨rfl, fun handle params result hsig => ?_⟩
  obtain ⟨f, hf, hsig⟩ := Option.map_eq_some_iff.1 hsig
  cases hsig
  exact ⟨f, hf, rfl, rfl, h handle f hf⟩

theorem global_interface {m : Module} {i : Nat} {g : Global} (hm : lib.find? m.id = some m)
    (hg : m.globals[i]? = some g) : (lib.interface L).global m.id i = some g.type :=
  Option.bind_eq_some_iff.2 ⟨m, hm, by rw [hg]; rfl⟩

theorem function_interface {m : Module} {i : Nat} {f : Function} (hm : lib.find? m.id = some m)
    (hf : m.functions[i]? = some f) :
    (lib.interface L).function ⟨m.id, i⟩ = some (f.params.map (·.2), f.result) :=
  Option.map_eq_some_iff.2 ⟨f, Option.bind_eq_some_iff.2 ⟨m, hm, hf⟩, rfl⟩

theorem Grows.function? (h : lib.Grows later) {handle : FunctionHandle} {f : Function}
    (hf : lib.function? handle = some f) : later.function? handle = some f := by
  obtain ⟨m, hm, hf⟩ := Option.bind_eq_some_iff.1 hf
  exact Option.bind_eq_some_iff.2 ⟨m, h _ m hm, hf⟩

/-- A library that grows offers more. -/
theorem Grows.within (h : lib.Grows later) (L : Laxity) :
    (lib.interface L).Within (later.interface L) := by
  refine ⟨id, id, h.layouts, fun home i t ht => ?_, fun handle sig hsig => ?_⟩
  · obtain ⟨m, hm, ht⟩ := Option.bind_eq_some_iff.1 ht
    exact Option.bind_eq_some_iff.2 ⟨m, h home m hm, ht⟩
  · obtain ⟨f, hf, hsig⟩ := Option.map_eq_some_iff.1 hsig
    exact Option.map_eq_some_iff.2 ⟨f, h.function? hf, hsig⟩

/-- The functions of the host are typed. -/
theorem typed_initial (L : Laxity) : Library.initial.Typed L := by
  intro handle f hf
  obtain ⟨m, hm, hf⟩ := Option.bind_eq_some_iff.1 hf
  have hall : ∀ f ∈ Module.base.functions, ∀ P home, f.Typed P home := by
    intro f hf P home
    simp only [Module.base, List.mem_cons, List.not_mem_nil, or_false] at hf
    rcases hf with rfl | rfl | rfl | rfl | rfl | rfl | rfl | rfl <;> exact ⟨rfl, rfl⟩
  obtain ⟨hlt, rfl⟩ := Array.getElem?_eq_some_iff.1 hm
  have hindex : handle.home.index = 0 := Nat.lt_one_iff.1 hlt
  refine hall f (List.mem_of_getElem? (i := handle.index) ?_) _ _
  rw [← hf]
  simp only [hindex, Library.initial]
  rfl

theorem grounded_initial : Library.initial.layouts.Grounded := by
  intro ref l hl
  obtain ⟨m, hm, hl⟩ := Option.bind_eq_some_iff.1 hl
  obtain ⟨hlt, rfl⟩ := Array.getElem?_eq_some_iff.1 hm
  have hindex : ref.home.index = 0 := Nat.lt_one_iff.1 hlt
  simp only [hindex, Library.initial] at hl
  cases hl

end Library

section Lowered

variable {lib : Library} {deps : List Module} {root : Tree} {forms : List FunctionForm}
  {globals : List GlobalForm} {u : LoweredUnit} {L : Laxity}
  (h : Lowered lib deps root names forms globals u)
  (hdeps : ∀ d ∈ deps, lib.find? d.id = some d)

include h

/-- The module of a unit has its place in the library. -/
theorem Lowered.find? : (lib.push u.module).find? u.module.id = some u.module := by
  rw [h.id]
  exact Source.find?_push_nextId lib _

include hdeps

/-- **What the names of a unit mean is in the library** that its module is put in. -/
theorem Lowered.knows (hbase : Library.initial.Grows lib) (hΓ : lib.layouts.Grounded)
    (hmixed : L.mixed) : ((lib.push u.module).interface L).Knows names := by
  have hgrows := Library.grows_push lib u.module
  have hhome : names.home = u.module.id := h.home.trans h.id.symm
  refine ⟨hmixed, fun ref l hl => (congrArg (·.find? ref) h.layouts).symm.trans hl,
    fun {tree t} ht => ?_, fun {name i t} hown => ?_,
    fun {name other i t} hforeign => ?_, fun {name callee params result} hfunction => ?_⟩
  · refine (h.grounded hΓ hdeps).of_find? fun ref href => ?_
    subst href
    rw [h.layouts]
    rcases Names.resolveType_struct ht with ⟨hown, hname⟩ | ⟨m, hm, hid, hlayout⟩
    · obtain ⟨d, hd, heq⟩ := List.mem_map.1 (h.structs _ hname)
      refine Library.exists_layout h.find? (hown.trans hhome) (Option.isSome_map.trans ?_)
      exact List.find?_isSome.2 ⟨d, hd, decide_eq_true heq⟩
    · rw [h.deps_eq] at hm
      exact Library.exists_layout (hgrows _ _ (hdeps m hm)) hid hlayout
  · obtain ⟨j, -, hrest⟩ := Option.bind_eq_some_iff.1 hown
    obtain ⟨g, hg, heq⟩ := Option.bind_eq_some_iff.1 hrest
    cases heq
    rw [hhome]
    exact Library.global_interface h.find? (by rw [h.module_globals, hg])
  · obtain ⟨m, hm, hfound⟩ := List.exists_of_findSome?_eq_some hforeign
    obtain ⟨j, -, hrest⟩ := Option.bind_eq_some_iff.1 hfound
    obtain ⟨g, hg, heq⟩ := Option.bind_eq_some_iff.1 hrest
    cases heq
    rw [h.deps_eq] at hm
    exact Library.global_interface (hgrows _ _ (hdeps m hm)) hg
  · unfold Names.function? at hfunction
    split at hfunction
    · rename_i i _
      obtain ⟨sig, hsig, heq⟩ := Option.bind_eq_some_iff.1 hfunction
      cases heq
      rw [h.signatures, List.getElem?_map] at hsig
      obtain ⟨form, hform, rfl⟩ := Option.map_eq_some_iff.1 hsig
      obtain ⟨f, hf, hlower⟩ := getElem?_of_forall₂ h.functions hform
      rw [← Source.lowerFunction_signature hlower, hhome]
      exact Library.function_interface h.find? hf
    · obtain ⟨m, hm, hfound⟩ := List.exists_of_findSome?_eq_some hfunction
      obtain ⟨i, -, hrest⟩ := Option.bind_eq_some_iff.1 hfound
      obtain ⟨f, hf, heq⟩ := Option.bind_eq_some_iff.1 hrest
      cases heq
      have hfind : lib.find? m.id = some m := by
        rw [h.deps_eq] at hm
        rcases List.mem_append.1 hm with hm | hm
        · exact hdeps m hm
        · rw [List.mem_singleton.1 hm]
          exact hbase ⟨0⟩ Module.base rfl
      exact Library.function_interface (hgrows _ _ hfind) hf

variable (hbase : Library.initial.Grows lib) (hΓ : lib.layouts.Grounded) (hmixed : L.mixed)
  (hcareful : L.unset ∨ root.careful = true)

include hbase hΓ hmixed hcareful

/-- The functions of a unit do what their parameters and results say. -/
theorem Lowered.functions_typed : ∀ f ∈ u.module.functions,
    f.Typed ((lib.push u.module).interface L) u.module.id := by
  intro f hf
  obtain ⟨form, hform, hlower⟩ := exists_of_forall₂ h.functions hf
  rw [h.id, ← h.home]
  exact (h.knows hdeps hbase hΓ hmixed).lowerFunction hlower
    (hcareful.imp_right fun hc => h.careful_body hc form hform)

/-- **The module of a unit that is accepted is typed** with those before it. -/
theorem Library.Typed.push (hlib : lib.Typed L) : (lib.push u.module).Typed L := by
  intro handle f hf
  by_cases hnew : handle.home = u.module.id
  · obtain ⟨m, hm, hf⟩ := Option.bind_eq_some_iff.1 hf
    rw [hnew, h.find?] at hm
    cases hm
    rw [hnew]
    exact h.functions_typed hdeps hbase hΓ hmixed hcareful f (List.mem_of_getElem? hf)
  · have hold : lib.function? handle = some f := by
      rw [Library.function?, Source.find?_push_of_ne (h.id ▸ hnew)] at hf
      exact hf
    exact (hlib handle f hold).mono ((Library.grows_push lib u.module).within L)

/-- The initialisers of a unit give values of its globals' types. -/
theorem Lowered.initialisers_typed : List.Forall₂
    (fun g init => init.code.Takes ((lib.push u.module).interface L) u.module.id
      [] g.type init.slots)
    u.module.globals u.initialisers := by
  have hP := h.knows hdeps hbase hΓ hmixed
  have hhome : names.home = u.module.id := h.home.trans h.id.symm
  rw [h.module_globals, h.globals_eq, List.forall₂_map_left_iff, ← hhome]
  have hall : ∀ g ∈ globals, root.careful = true → g.init.careful = true := fun g hg hc =>
    h.careful_init hc g hg
  exact ((List.forall₂_and_left _ _).2 ⟨hall, h.initialisers⟩).imp fun g init ⟨hg, hlower⟩ =>
    hP.lowerGlobal hlower (hcareful.imp_right hg)

end Lowered

end Kiln
