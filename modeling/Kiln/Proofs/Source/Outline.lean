import Kiln.Proofs.Source.Forms
import Mathlib.Data.List.Nodup
/-!
# Definitions and what lowering makes of them

The first passes over a unit settle its structs, its functions and its globals. What they
come to is what the tree of the unit defines (`Scenery.ofUnit`): the same types under the
same names, and the same functions and globals in the same order, no two functions of one
name.
-/

namespace Kiln

namespace Source

namespace Scenery

variable (D : Scenery)

/-- The initialiser of the global that a definition defines, as it is written down. -/
def initOf? (t : Tree) : Option Tree :=
  match t.form? "global" with
  | some [_, _, init] => some init
  | _ => none

section Sorting

variable {β γ : Type} {f : Tree → Option β} {g : Tree → Option γ}
  (hf : ∀ t, t.form? "fun" = none → f t = none) (hg : ∀ t, t.form? "global" = none → g t = none)

include hf hg

/-- Sorting the definitions loses none and keeps their order, whatever is read off functions and
globals. -/
theorem outline_add {o o' : Outline} {t : Tree} (h : o.add t = .ok o') :
    o'.structs = o.structs ++ [t].filterMap structOf? ∧
      o'.functions.filterMap f = o.functions.filterMap f ++ [t].filterMap f ∧
      o'.globals.filterMap g = o.globals.filterMap g ++ [t].filterMap g := by
  unfold Outline.add at h
  split at h
  · cases h
  · rename_i _ nameTree fields hform
    have hhead := head?_of_form? hform
    have hfun : f t = none := hf t (form?_eq_none hhead (by decide))
    have hglobal : g t = none := hg t (form?_eq_none hhead (by decide))
    obtain ⟨name, hname, h⟩ := ok_of_bind h
    split at h
    · cases h
    · cases h
      have hstruct : structOf? t = some ⟨name, fields, t.span⟩ := by
        rw [structOf?, hform]
        dsimp only
        rw [(declaredName_eq hname).1, Option.getD_some]
      rw [List.filterMap_cons_some hstruct, List.filterMap_cons_none hfun,
        List.filterMap_cons_none hglobal]
      simp
  · rename_i hform hhead
    cases h
    have hstruct : structOf? t = none := by rw [structOf?, hform]
    have hglobal : g t = none := hg t (form?_eq_none hhead (by decide))
    rw [List.filterMap_append, List.filterMap_cons_none hstruct, List.filterMap_cons_none hglobal]
    simp
  · rename_i hform hhead
    cases h
    have hstruct : structOf? t = none := by rw [structOf?, hform]
    have hfun : f t = none := hf t (form?_eq_none hhead (by decide))
    rw [List.filterMap_append, List.filterMap_cons_none hstruct, List.filterMap_cons_none hfun]
    simp
  · cases h

theorem outline {ts : List Tree} : ∀ {o o' : Outline}, ts.foldlM Outline.add o = .ok o' →
    o'.structs = o.structs ++ ts.filterMap structOf? ∧
      o'.functions.filterMap f = o.functions.filterMap f ++ ts.filterMap f ∧
      o'.globals.filterMap g = o.globals.filterMap g ++ ts.filterMap g := by
  induction ts with
  | nil =>
    intro o o' h
    cases h
    simp
  | cons t ts ih =>
    intro o o' h
    rw [List.foldlM_cons] at h
    obtain ⟨o₁, hstep, h⟩ := ok_of_bind h
    obtain ⟨hs₁, hf₁, hg₁⟩ := outline_add hf hg hstep
    obtain ⟨hs₂, hf₂, hg₂⟩ := ih h
    refine ⟨?_, ?_, ?_⟩
    · rw [hs₂, hs₁, List.append_assoc, ← List.filterMap_append]
      rfl
    · rw [hf₂, hf₁, List.append_assoc, ← List.filterMap_append]
      rfl
    · rw [hg₂, hg₁, List.append_assoc, ← List.filterMap_append]
      rfl

end Sorting

theorem outline_ofUnit {root : Tree} {o : Outline} (h : Outline.ofUnit root = .ok o) :
    o.structs = (definitions root).filterMap structOf? ∧
      o.functions.filterMap D.functionOf? = (definitions root).filterMap D.functionOf? ∧
      o.globals.filterMap D.globalOf? = (definitions root).filterMap D.globalOf? :=
  outline (fun t h => by rw [functionOf?, h]) (fun t h => by rw [globalOf?, h]) h

/-- The initialisers of a unit are those of its definitions, in their order. -/
theorem inits_ofUnit {root : Tree} {o : Outline} (h : Outline.ofUnit root = .ok o) :
    o.globals.filterMap initOf? = (definitions root).filterMap initOf? :=
  (outline (f := fun _ => (none : Option Unit)) (fun _ _ => rfl)
    (fun t h => by rw [initOf?, h]) h).2.2

/-- Structs of names of their own, which mean nothing else. -/
def Named (forms : List StructForm) : Prop :=
  (forms.map (·.name)).Nodup ∧ ∀ form ∈ forms, isReserved form.name = false

theorem named_add {o o' : Outline} {t : Tree} (hnamed : Named o.structs) (h : o.add t = .ok o') :
    Named o'.structs := by
  unfold Outline.add at h
  split at h
  · cases h
  · obtain ⟨name, hname, h⟩ := ok_of_bind h
    split at h
    · cases h
    · rename_i hnew
      cases h
      refine ⟨?_, ?_⟩
      · rw [List.map_append, List.nodup_append]
        refine ⟨hnamed.1, List.nodup_singleton _, ?_⟩
        rintro other hother last hlast rfl
        obtain ⟨form, hform, rfl⟩ := List.mem_map.1 hother
        exact hnew (List.any_eq_true.2 ⟨form, hform, beq_iff_eq.2 (List.mem_singleton.1 hlast)⟩)
      · intro form hform
        rcases List.mem_append.1 hform with hform | hform
        · exact hnamed.2 form hform
        · cases List.mem_singleton.1 hform
          exact (declaredName_eq hname).2.1
  · cases h
    exact hnamed
  · cases h
    exact hnamed
  · cases h

/-- **The structs of a unit have names of their own.** -/
theorem named_ofUnit {root : Tree} {o : Outline} (h : Outline.ofUnit root = .ok o) :
    Named o.structs := by
  have hfold : ∀ {ts : List Tree} {o o' : Outline}, Named o.structs →
      ts.foldlM Outline.add o = .ok o' → Named o'.structs := by
    intro ts
    induction ts with
    | nil =>
      intro o o' hnamed h
      cases h
      exact hnamed
    | cons t ts ih =>
      intro o o' hnamed h
      rw [List.foldlM_cons] at h
      obtain ⟨o₁, hstep, h⟩ := ok_of_bind h
      exact ih (named_add hnamed hstep) h
  have hempty : Named (⟨[], [], []⟩ : Outline).structs :=
    ⟨List.nodup_nil, fun _ hform => by cases hform⟩
  exact hfold hempty h

/-! ## Types, functions and globals -/

variable {D} in
theorem type?_eq {names : Names} (hhome : names.home = D.home) (hdeps : names.deps = D.deps)
    (hstructs : names.structs = D.structs) (name : String) :
    names.type? name = D.typeNamed? name := by
  obtain ⟨home, deps, structs, functions, globals⟩ := D
  subst hhome hdeps hstructs
  rfl

/-- Lowering means by each type what the unit means by it. -/
theorem typeOf_of_resolveType {names : Names} (hname : ∀ name, names.type? name = D.typeNamed? name)
    (tree : Tree) : ∀ {t : Ty}, names.resolveType tree = .ok t → D.typeOf tree = t := by
  induction tree using Tree.inductItems with
  | leaf a s =>
    intro t h
    rcases a with n | b | text | name
    · cases h
    · cases h
    · cases h
    · unfold Names.resolveType at h
      rw [hname] at h
      split at h
      · rename_i found hfound
        cases h
        rw [typeOf, hfound]
        rfl
      · cases h
  | node items s ih =>
    intro t h
    rcases items with _ | ⟨head, _ | ⟨inner, _ | ⟨_, _⟩⟩⟩
    · cases h
    · cases h
    · unfold Names.resolveType at h
      split at h
      · rename_i hptr
        obtain ⟨u, hu, rfl⟩ := ok_of_map h
        rw [typeOf, if_pos hptr, ih inner (by simp) hu]
      · rename_i hptr
        split at h
        · obtain ⟨u, hu, rfl⟩ := ok_of_map h
          rw [typeOf, if_neg hptr, ih inner (by simp) hu]
        · cases h
    · cases h

variable {D} {names : Names}
  (htype : ∀ {tree : Tree} {t : Ty}, names.resolveType tree = .ok t → D.typeOf tree = t)

include htype

/-- Each parameter is what its tree says. -/
theorem params_of_foldlM {trees : List Tree} {params : List Param}
    (h : trees.foldlM names.param [] = .ok params) : D.params trees = params := by
  have hstep : ∀ {before : List Param} {t : Tree} {after : List Param},
      names.param before t = .ok after → ∃ p, after = before ++ [p] ∧ ∃ name type s,
        t = .node [name, type] s ∧ p = (name.symbol?.getD "", D.typeOf type) := by
    intro before t after hstep
    obtain ⟨⟨nameTree, typeTree⟩, hpair, hstep⟩ := ok_of_bind hstep
    obtain ⟨s, rfl⟩ := pairOf_eq hpair
    obtain ⟨name, hname, hstep⟩ := ok_of_bind hstep
    split at hstep
    · cases hstep
    · obtain ⟨t, ht, hstep⟩ := ok_of_bind hstep
      cases hstep
      refine ⟨_, rfl, nameTree, typeTree, s, rfl, ?_⟩
      rw [(declaredName_eq hname).1, htype ht, Option.getD_some]
  obtain ⟨_, rfl, hparams⟩ := foldlM_append hstep h
  refine filterMap_eq_of_forall₂ (hparams.imp ?_)
  rintro t p ⟨-, name, type, s, rfl, rfl⟩
  rfl

/-- A function as lowering knows it before its body. -/
def funOf (f : FunctionForm) : Fun :=
  ⟨f.signature.name, f.signature.params, f.signature.result, f.body⟩

omit htype in
/-- What a function adds to those before it has a name that none of them has. -/
theorem function_add {before after : List FunctionForm} {t : Tree}
    (h : names.function before t = .ok after) :
    ∃ f, after = before ++ [f] ∧ (∀ g ∈ before, g.signature.name ≠ f.signature.name) ∧
      ∀ D : Scenery,
        (∀ {tree : Tree} {t : Ty}, names.resolveType tree = .ok t → D.typeOf tree = t) →
          D.functionOf? t = some (funOf f) := by
  unfold Names.function at h
  split at h
  · rename_i nameTree paramsTree resultTree body hform
    obtain ⟨name, hname, h⟩ := ok_of_bind h
    split at h
    · cases h
    · rename_i hnew
      split at h
      · rename_i paramTrees hitems
        obtain ⟨params, hparams, h⟩ := ok_of_bind h
        obtain ⟨result, hresult, h⟩ := ok_of_bind h
        cases h
        refine ⟨_, rfl, fun g hg heq => hnew ?_, fun D htype => ?_⟩
        · exact List.any_eq_true.2 ⟨g, hg, beq_iff_eq.2 heq⟩
        · rw [functionOf?, hform]
          dsimp only
          rw [(declaredName_eq hname).1, hitems, Option.getD_some, Option.getD_some,
            params_of_foldlM htype hparams, htype hresult]
          rfl
      · cases h
  · cases h

/-- The functions of a unit are those that its definitions define. -/
theorem functions_of_foldlM {ts : List Tree} {forms : List FunctionForm}
    (h : ts.foldlM names.function [] = .ok forms) :
    ts.filterMap D.functionOf? = forms.map funOf := by
  have hstep : ∀ {before : List FunctionForm} {t : Tree} {after : List FunctionForm},
      names.function before t = .ok after →
        ∃ f, after = before ++ [f] ∧ D.functionOf? t = some (funOf f) := fun hstep => by
    obtain ⟨f, hafter, -, hf⟩ := function_add hstep
    exact ⟨f, hafter, hf D htype⟩
  obtain ⟨_, rfl, hforms⟩ := foldlM_append hstep h
  refine filterMap_eq_of_forall₂ (List.forall₂_map_right_iff.2 ?_)
  exact hforms.imp fun _ _ ⟨_, hf⟩ => hf

/-- The globals of a unit are those that its definitions define. -/
theorem globals_of_foldlM {ts : List Tree} {forms : List GlobalForm}
    (h : ts.foldlM names.global [] = .ok forms) :
    ts.filterMap D.globalOf? = forms.map (·.global) := by
  have hstep : ∀ {before : List GlobalForm} {t : Tree} {after : List GlobalForm},
      names.global before t = .ok after →
        ∃ g, after = before ++ [g] ∧ D.globalOf? t = some g.global := by
    intro before t after hstep
    unfold Names.global at hstep
    split at hstep
    · rename_i nameTree typeTree init hform
      obtain ⟨name, hname, hstep⟩ := ok_of_bind hstep
      split at hstep
      · cases hstep
      · obtain ⟨t, ht, hstep⟩ := ok_of_bind hstep
        cases hstep
        refine ⟨_, rfl, ?_⟩
        rw [globalOf?, hform]
        dsimp only
        rw [(declaredName_eq hname).1, htype ht, Option.getD_some]
    · cases hstep
  obtain ⟨_, rfl, hforms⟩ := foldlM_append hstep h
  refine filterMap_eq_of_forall₂ (List.forall₂_map_right_iff.2 ?_)
  exact hforms.imp fun _ _ ⟨_, hg⟩ => hg

omit htype in
/-- **No two functions of a unit have one name.** -/
theorem nodup_of_foldlM {ts : List Tree} : ∀ {before forms : List FunctionForm},
    ts.foldlM names.function before = .ok forms →
      (before.map (·.signature.name)).Nodup → (forms.map (·.signature.name)).Nodup := by
  induction ts with
  | nil =>
    intro before forms h hbefore
    cases h
    exact hbefore
  | cons t ts ih =>
    intro before forms h hbefore
    rw [List.foldlM_cons] at h
    obtain ⟨after, hstep, h⟩ := ok_of_bind h
    obtain ⟨f, rfl, hnew, -⟩ := function_add hstep
    refine ih h ?_
    rw [List.map_append, List.nodup_append]
    refine ⟨hbefore, List.nodup_singleton _, ?_⟩
    rintro name hname other hother rfl
    obtain ⟨g, hg, rfl⟩ := List.mem_map.1 hname
    exact hnew g hg (List.mem_singleton.1 hother)

end Scenery

/-! ## The unit as a whole -/

/-- Names as they are when bodies are lowered: what they mean is what the tree of the unit
defines and sees, in the library that has the unit's module `m` as well. -/
structure Settled (lib : Library) (deps : List Module) (root : Tree) (names : Names)
    (forms : List FunctionForm) (m : Module) : Prop where
  home : names.home = lib.nextId
  deps_eq : names.deps = deps
  structs : names.structs = (Scenery.ofUnit lib.nextId deps root).structs
  named : Scenery.Named ((definitions root).filterMap Scenery.structOf?)
  globals : names.globals = (Scenery.ofUnit lib.nextId deps root).globals
  signatures : names.signatures = forms.map (·.signature)
  functions : (Scenery.ofUnit lib.nextId deps root).functions = forms.map Scenery.funOf
  nodup : (forms.map (·.signature.name)).Nodup
  layouts : names.layouts = (lib.push m).layouts
  laid : layOutAll ⟨lib.nextId, deps, lib.layouts, names.structs, [], []⟩
    ((definitions root).filterMap Scenery.structOf?) = .ok m.structs
  id : m.id = lib.nextId
  lowered : List.Forall₂ (fun f g => names.lowerFunction f = .ok g) forms m.functions

/-- The number of the next module is the place it gets. -/
theorem find?_push_nextId (lib : Library) (m : Module) : (lib.push m).find? lib.nextId = some m :=
  Array.getElem?_push_size

theorem find?_push_of_ne {lib : Library} {m : Module} {id : ModuleId} (h : id ≠ lib.nextId) :
    (lib.push m).find? id = lib.find? id := by
  have hindex : id.index ≠ lib.modules.size := fun hsize => h (congrArg ModuleId.mk hsize)
  rw [Library.find?, Library.find?, Library.push, Array.getElem?_push, if_neg hindex]

/-- The structs of the next module have the layouts that it gives them. -/
theorem find?_layouts_push (lib : Library) (m : Module) (name : String) :
    (lib.push m).layouts.find? ⟨lib.nextId, name⟩ = m.layout? name := by
  show ((lib.push m).find? lib.nextId).bind _ = _
  rw [find?_push_nextId]
  rfl

/-- A library with one module more has the layouts of its structs as well. -/
theorem layouts_push {lib : Library} {m : Module} (names : Names) {structs : List StructDef}
    (hstructs : m.structs = structs) (hhome : names.home = lib.nextId)
    (hlayouts : names.layouts = lib.layouts) :
    (names.withStructs structs).layouts = (lib.push m).layouts := by
  subst hstructs
  rw [Names.withStructs, Library.layouts, hlayouts, hhome, Layouts.mk.injEq]
  refine ⟨funext fun ref => ?_, ?_⟩
  · by_cases href : ref.home = lib.nextId
    · rw [if_pos href, href, find?_push_nextId]
      rfl
    · rw [if_neg href, find?_push_of_ne href]
      rfl
  · rw [Library.push, Array.foldl_push]
    rfl

/-- Modules with the same layouts make libraries with the same layouts. -/
theorem layouts_push_congr {lib : Library} {m m' : Module}
    (hlayout : ∀ name, m'.layout? name = m.layout? name)
    (hlength : m'.structs.length = m.structs.length) :
    (lib.push m').layouts = (lib.push m).layouts := by
  rw [Library.layouts, Library.layouts, Layouts.mk.injEq]
  refine ⟨funext fun ref => ?_, ?_⟩
  · by_cases href : ref.home = lib.nextId
    · rw [href, find?_push_nextId, find?_push_nextId]
      exact hlayout ref.name
    · rw [find?_push_of_ne href, find?_push_of_ne href]
  · rw [Library.push, Library.push, Array.foldl_push, Array.foldl_push, hlength]

theorem settled_of_lowerUnit {lib : Library} {name : String} {deps : List Module} {root : Tree}
    {lowered : LoweredUnit} (h : lowerUnit lib name deps root = .ok lowered) :
    ∃ names forms, Settled lib deps root names forms lowered.module := by
  -- the scenery before its functions and globals, by which their types are settled
  let D : Scenery :=
    ⟨lib.nextId, deps, ((definitions root).filterMap Scenery.structOf?).map (·.name), [], []⟩
  obtain ⟨o, ho, h⟩ := ok_of_bind h
  obtain ⟨hs, hf, hg⟩ := D.outline_ofUnit ho
  have hnamed := Scenery.named_ofUnit ho
  rw [hs] at h hnamed
  obtain ⟨structs, hstructs, h⟩ := ok_of_bind h
  obtain ⟨forms, hforms, h⟩ := ok_of_bind h
  obtain ⟨globals, hglobals, h⟩ := ok_of_bind h
  obtain ⟨functions, hfunctions, h⟩ := ok_of_bind h
  obtain ⟨initialisers, -, h⟩ := ok_of_bind h
  cases h
  let plain : Names := ⟨lib.nextId, deps, lib.layouts, D.structs, [], []⟩
  let names : Names := plain.withStructs structs
  have htype : ∀ {tree : Tree} {t : Ty}, names.resolveType tree = .ok t → D.typeOf tree = t :=
    fun ht => D.typeOf_of_resolveType (Scenery.type?_eq rfl rfl rfl) _ ht
  have hglobals : globals.map (·.global) = (definitions root).filterMap D.globalOf? := by
    rw [← hg, Scenery.globals_of_foldlM htype hglobals]
  have hfunctions' : (definitions root).filterMap D.functionOf? = forms.map Scenery.funOf := by
    rw [← hf, Scenery.functions_of_foldlM htype hforms]
  let names : Names :=
    { names with signatures := forms.map (·.signature), globals := globals.map (·.global) }
  exact ⟨names, forms, rfl, rfl, rfl, hnamed, hglobals, rfl, hfunctions',
    Scenery.nodup_of_foldlM hforms List.nodup_nil, layouts_push plain rfl rfl rfl, hstructs, rfl,
    forall₂_of_mapM hfunctions⟩

end Source

end Kiln
