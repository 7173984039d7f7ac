import Kiln.Proofs.Container.Trees
import Kiln.Proofs.Source.Structs
import Kiln.Proofs.Workspace.Compiled
import Mathlib.Algebra.Ring.Nat
/-!
# What a wrapper defines

A wrapper that could be declared is a unit that was lowered, whose tree is that of a wrapper
up to spans (`Wraps`). From this it is read off what its functions are, and how its structs
lie in memory (`Wraps.block_layout`, `Wraps.self_layout`): the block has the number of owners
first and the payload behind it, at the eighth byte, and the payload fits memory
(`Wraps.fits`).
-/

namespace Kiln

open Blueprint Source

/-- What a payload needs to be defined first: nothing, or one struct. -/
structure Container.Inner (root : Tree) : Prop where
  functions : ∀ D : Scenery, (definitions root).filterMap D.functionOf? = []
  /-- There is at most one struct, with so many fields that a list can hold. -/
  structs : (definitions root).filterMap Scenery.structOf? = [] ∨
    ∃ form, (definitions root).filterMap Scenery.structOf? = [form] ∧ form.fields.length < 2 ^ 58

namespace Container

theorem form?_of_head {t : Tree} {word other : String} {rest : List Tree}
    (h : t.form? word = some rest) (hne : word ≠ other) : t.form? other = none :=
  form?_eq_none (head?_of_form? h) hne

/-- A tree has fewer items than would fill memory. -/
def Bounded (t : Tree) : Prop := ∀ items, t.items? = some items → items.length < 2 ^ 58

theorem inner_of_payload {name : String} {inner definition named : Fragment}
    (h : payload name inner = .ok (definition, named)) (hbound : Bounded inner.root) :
    Inner definition.root := by
  unfold payload at h
  split at h
  · cases h
    exact ⟨fun _ => rfl, .inl rfl⟩
  · rename_i args hform
    split at h
    · rename_i struct hstruct
      cases h
      obtain ⟨head, fields, rfl⟩ : ∃ head fields, args = head :: fields := by
        rcases args with _ | ⟨head, fields⟩
        · cases hstruct
        · exact ⟨head, fields, rfl⟩
      have hdefinitions : definitions inner.root = [inner.root] := by
        rcases hroot : inner.root with ⟨a, s⟩ | ⟨_ | ⟨first, rest⟩, s⟩
        · rfl
        · rfl
        · have hhead := head?_of_form? hform
          rw [hroot] at hhead
          rw [definitions, if_neg]
          exact fun hdo => absurd (hdo.symm.trans hhead) (by decide)
      refine ⟨fun D => ?_, .inr ⟨⟨head.symbol?.getD "", fields, inner.root.span⟩, ?_, ?_⟩⟩
      · rw [hdefinitions, List.filterMap_cons_none]
        · rfl
        · rw [Scenery.functionOf?, form?_of_head hform (by decide)]
      · rw [hdefinitions, List.filterMap_cons_some]
        · rfl
        · rw [Scenery.structOf?, hform]
      · rcases hroot : inner.root with ⟨a, s⟩ | ⟨_ | ⟨first, rest⟩, s⟩
        · rw [hroot] at hform
          cases hform
        · rw [hroot] at hform
          cases hform
        · rw [hroot, Tree.form?] at hform
          split at hform
          · cases hform
            have hlen := hbound _ (by rw [hroot]; rfl)
            rw [List.length_cons, List.length_cons] at hlen
            dsimp only
            omega
          · cases hform
    · cases h

end Container

/-! ## The unit of a wrapper -/

theorem TypeExpr.fragment_ofFragment {f : Fragment} {t : TypeExpr} (h : ofFragment f = .ok t) :
    t.fragment = f := by
  unfold ofFragment at h
  split at h
  · cases h
    rfl
  · cases h

/-- The module is what a wrapper's unit was lowered to, in a library that has the base library at
its place: `inner` is what the payload needs, and `payload` names it. -/
structure Wraps (lib : Library) (name : String) (inner payload : Tree) (m : Module) : Prop where
  base : lib.find? ⟨0⟩ = some Module.base
  needs : Container.Inner inner
  settled : ∃ root names forms, Settled lib [] root names forms m ∧
    (wrapperTree (word name) (suffixed name) payload inner).respan default = root.respan default

/-- **A wrapper that could be declared is the unit of one**, put behind the modules that were
there. -/
theorem Work.declareWrapper_wraps {name : String} {inner : Fragment} {m : Module}
    {w w' : Workspace} (h : (Work.declareWrapper name inner).run w = .ok (.ok m) w')
    (hbase : w.library.find? ⟨0⟩ = some Module.base) (hbound : Container.Bounded inner.root) :
    w'.library = w.library.push m ∧ ∃ definition named,
      Container.payload name inner = .ok (definition, named) ∧
        Wraps w.library name definition.root named.root m := by
  obtain ⟨unit, type, lowered, origin, hunit, hlower, rfl, hlibrary⟩ := Work.declareWrapper_ok h
  obtain ⟨⟨definition, named⟩, hpayload, hunit⟩ := ok_of_bind hunit
  obtain ⟨type', htype, hunit⟩ := ok_of_bind hunit
  obtain ⟨f, hinstance, hunit⟩ := ok_of_bind hunit
  cases hunit
  obtain ⟨f', hf, hlower⟩ := ok_of_bind hlower
  cases hf
  obtain ⟨lowered', hlowered, hlower⟩ := ok_of_bind hlower
  cases hlower
  obtain ⟨names, forms, hsettled⟩ := settled_of_lowerUnit (ok_of_mapError hlowered)
  obtain rfl := TypeExpr.fragment_ofFragment (ok_of_mapError htype)
  exact ⟨hlibrary, definition, type.fragment, hpayload, hbase,
    Container.inner_of_payload hpayload hbound, f.root, names, forms, hsettled,
    (instance_wrapper hinstance).symm⟩

namespace Wraps

variable {lib : Library} {name : String} {inner payload : Tree} {m : Module}

/-- What the unit of a wrapper defines. -/
def scenery (lib : Library) (name : String) (inner payload : Tree) : Scenery :=
  .ofUnit lib.nextId [] (wrapperTree (word name) (suffixed name) payload inner)

/-- The struct that a block is. -/
def blockForm (name : String) (payload : Tree) : StructForm :=
  ⟨name ++ "_block", [list [word "count", word "i64"], list [word "payload", payload]], default⟩

/-- The struct that a handle is. -/
def selfForm (name : String) : StructForm :=
  ⟨name, [list [word "block", list [word "ptr", suffixed name "_block"]]], default⟩

theorem structs_eq : (definitions (wrapperTree (word name) (suffixed name) payload inner)).filterMap
      Scenery.structOf? =
    (definitions inner).filterMap Scenery.structOf? ++ [blockForm name payload, selfForm name] := by
  have hsplit : definitions (wrapperTree (word name) (suffixed name) payload inner) =
      definitions inner ++ wrapperDefinitions (word name) (suffixed name) payload := rfl
  rw [hsplit, List.filterMap_append]
  rfl

variable (h : Wraps lib name inner payload m)

include h

theorem named : Scenery.Named ((definitions inner).filterMap Scenery.structOf? ++
    [blockForm name payload, selfForm name]) := by
  obtain ⟨root, names, forms, hsettled, hspans⟩ := h.settled
  rw [← structs_eq]
  exact hsettled.named_of_respan hspans

theorem id : m.id = lib.nextId := by
  obtain ⟨root, names, forms, hsettled, -⟩ := h.settled
  exact hsettled.id

theorem nodup_structs : (m.structs.map (·.name)).Nodup := by
  obtain ⟨root, names, forms, hsettled, -⟩ := h.settled
  exact hsettled.nodup_structs

/-! ## Types -/

theorem typeOf_word {struct : String} {form : StructForm} (hname : form.name = struct)
    (hform : form ∈ (definitions inner).filterMap Scenery.structOf? ++
      [blockForm name payload, selfForm name]) :
    (scenery lib name inner payload).typeOf (word struct) = .struct ⟨lib.nextId, struct⟩ := by
  subst hname
  have hmem : form.name ∈ (scenery lib name inner payload).structs := by
    rw [scenery, Scenery.ofUnit, structs_eq]
    exact List.mem_map_of_mem hform
  rw [word, Scenery.typeOf, Scenery.typeNamed?, primitive?_eq_none (h.named.2 form hform)]
  dsimp only
  rw [if_pos (List.contains_iff_mem.2 hmem)]
  rfl

theorem typeOf_self :
    (scenery lib name inner payload).typeOf (word name) = .struct ⟨lib.nextId, name⟩ :=
  h.typeOf_word (rfl : (selfForm name).name = name) (by simp)

theorem typeOf_block : (scenery lib name inner payload).typeOf (suffixed name "_block") =
    .struct ⟨lib.nextId, name ++ "_block"⟩ :=
  h.typeOf_word (rfl : (blockForm name payload).name = name ++ "_block") (by simp)

/-! ## Functions -/

section Functions

/-- The functions of a wrapper, given the types of its handles and of its payload. -/
def newFun (name : String) (self payload : Ty) : Fun :=
  ⟨name ++ "_new", [("value", payload)], self, newBody (word name) (suffixed name)⟩

@[inherit_doc newFun]
def derefFun (name : String) (self payload : Ty) : Fun :=
  ⟨name ++ "_deref", [("rc", self)], .ptr payload, derefBody⟩

@[inherit_doc newFun]
def duplicateFun (name : String) (self : Ty) : Fun :=
  ⟨name ++ "_duplicate", [("rc", self)], self, duplicateBody (word name)⟩

@[inherit_doc newFun]
def releaseFun (name : String) (self : Ty) : Fun :=
  ⟨name ++ "_release", [("rc", self)], .unit, releaseBody⟩

@[inherit_doc newFun]
def countFun (name : String) (self : Ty) : Fun :=
  ⟨name ++ "_count", [("rc", self)], .i64, countBody⟩

/-- All of them, in their order. -/
def functions (name : String) (self payload : Ty) : List Fun :=
  [newFun name self payload, derefFun name self payload, duplicateFun name self,
    releaseFun name self, countFun name self]

theorem functions_eq : (scenery lib name inner payload).functions =
    functions name (.struct ⟨lib.nextId, name⟩)
      ((scenery lib name inner payload).typeOf payload) := by
  have hself := h.typeOf_self
  have hsplit : definitions (wrapperTree (word name) (suffixed name) payload inner) =
      definitions inner ++ wrapperDefinitions (word name) (suffixed name) payload := rfl
  rw [scenery, (Scenery.definitions_ofUnit _ _ _).1, ← scenery, hsplit, List.filterMap_append,
    h.needs.functions, List.nil_append, ← hself]
  rfl

omit h in
/-- A name with something behind it ends as that does. -/
theorem append_ne {suffix target : String} (hsuffix : ¬suffix.toList <:+ target.toList) :
    name ++ suffix ≠ target := by
  rintro rfl
  refine hsuffix ⟨name.toList, ?_⟩
  rw [String.toList_append]

/-- A name that no function of the wrapper has is one of the base library. -/
theorem function?_base {function : String} {handle : FunctionHandle} {result : Ty}
    (hsuffix : ∀ suffix ∈ ["_new", "_deref", "_duplicate", "_release", "_count"],
      ¬suffix.toList <:+ function.toList)
    (hhandle : Module.base.handle? function = some handle)
    (hresult : (Module.base.functions[handle.index]?).map (·.result) = some result) :
    (scenery lib name inner payload).function? function = some (.compiled handle, result) := by
  obtain ⟨f, hf, rfl⟩ := Option.map_eq_some_iff.1 hresult
  have hnone : (scenery lib name inner payload).functions.find? (·.name = function) = none := by
    rw [h.functions_eq, List.find?_eq_none]
    simp only [List.forall_mem_cons] at hsuffix
    obtain ⟨h₁, h₂, h₃, h₄, h₅, -⟩ := hsuffix
    simp only [functions, List.forall_mem_cons, decide_eq_true_eq]
    exact ⟨append_ne h₁, append_ne h₂, append_ne h₃, append_ne h₄, append_ne h₅,
      fun _ hmem => by cases hmem⟩
  have hdeps : (scenery lib name inner payload).deps ++ [Module.base] = [Module.base] := rfl
  rw [Scenery.function?, hnone, hdeps, List.findSome?_cons, hhandle]
  dsimp only [Option.bind_eq_bind, Option.bind_some]
  rw [hf]
  rfl

theorem function?_malloc : (scenery lib name inner payload).function? "malloc" =
    some (.compiled ⟨⟨0⟩, 0⟩, .bytePtr) :=
  h.function?_base (by decide) (by decide) rfl

theorem function?_free : (scenery lib name inner payload).function? "free" =
    some (.compiled ⟨⟨0⟩, 1⟩, .unit) :=
  h.function?_base (by decide) (by decide) rfl

end Functions

/-! ## Layouts -/

omit h in
theorem fieldTree_list {D : Scenery} {field : String} {type : Tree} {found : String × Ty}
    (hfound : D.FieldTree (list [word field, type]) found) : found = (field, D.typeOf type) := by
  obtain ⟨name', type', s, htree, hname, htype⟩ := hfound
  obtain ⟨⟨rfl, rfl⟩, -⟩ : (word field = name' ∧ type = type') ∧ default = s := by
    simpa [list] using htree
  exact Prod.ext (Option.some.inj hname).symm htype.symm

theorem lies {form : StructForm} (hform : form ∈ (definitions inner).filterMap Scenery.structOf? ++
      [blockForm name payload, selfForm name]) :
    ∃ before d fields, Lies (scenery lib name inner payload) (lib.push m).layouts m.structs form
      before d fields := by
  obtain ⟨root, names, forms, hsettled, hspans⟩ := h.settled
  rw [← structs_eq] at hform
  exact hsettled.lies hspans (fun _ hdep => by cases hdep) hform

theorem lies_of_mem {d : StructDef} (hd : d ∈ m.structs) :
    ∃ form ∈ (definitions inner).filterMap Scenery.structOf? ++
        [blockForm name payload, selfForm name], ∃ before fields,
      Lies (scenery lib name inner payload)
        (lib.push m).layouts m.structs form before d fields := by
  obtain ⟨root, names, forms, hsettled, hspans⟩ := h.settled
  rw [← structs_eq]
  exact hsettled.lies_of_mem hspans (fun _ hdep => by cases hdep) hd

theorem lies_block :
    ∃ before d, Lies (scenery lib name inner payload) (lib.push m).layouts m.structs
    (blockForm name payload) before d
      [("count", .i64), ("payload", (scenery lib name inner payload).typeOf payload)] := by
  obtain ⟨before, d, fields, hlies⟩ := h.lies (by simp : blockForm name payload ∈ _)
  have hshapes := hlies.shapes
  rw [blockForm] at hshapes
  obtain _ | ⟨hcount, _ | ⟨hpayload, _ | _⟩⟩ := hshapes
  rw [fieldTree_list hcount, fieldTree_list hpayload] at hlies
  exact ⟨before, d, hlies⟩

theorem lies_self : ∃ before d, Lies (scenery lib name inner payload) (lib.push m).layouts m.structs
    (selfForm name) before d [("block", .ptr (.struct ⟨lib.nextId, name ++ "_block"⟩))] := by
  obtain ⟨before, d, fields, hlies⟩ := h.lies (by simp : selfForm name ∈ _)
  have hshapes := hlies.shapes
  rw [selfForm] at hshapes
  obtain _ | ⟨hblock, _ | _⟩ := hshapes
  have htype : (scenery lib name inner payload).typeOf (list [word "ptr", suffixed name "_block"]) =
      .ptr (.struct ⟨lib.nextId, name ++ "_block"⟩) := by
    rw [← h.typeOf_block]
    rfl
  rw [fieldTree_list hblock, htype] at hlies
  exact ⟨before, d, hlies⟩

omit h in
/-- A word is put at the start of a struct. -/
theorem push?_word {Γ : Layouts} {t : Ty} (field : String)
    (hword : t.size Γ = 8 ∧ t.align Γ = 8) :
    (⟨[], 0, 1⟩ : Layout.Draft).push? Γ (field, t) = some ⟨[⟨field, t, 0⟩], 8, 8⟩ := by
  have hstart : alignUp 0 8 = 0 := by decide
  have hmax : max (1 : UInt64) 8 = 8 := by decide
  have hroom : 8 < UInt64.size := by decide
  simp [Layout.Draft.push?, hword, hstart, hmax, hroom]

omit h in
/-- A single pointer is all of its struct. -/
theorem ofFields?_pointer (Γ : Layouts) (field : String) (target : Ty) :
    Layout.ofFields? Γ [(field, .ptr target)] = some ⟨[⟨field, .ptr target, 0⟩], 8, 8⟩ := by
  have hstop : alignUp 8 8 = 8 := by decide
  rw [Layout.ofFields?, List.foldlM_cons, push?_word field ⟨rfl, rfl⟩]
  simp [Layout.Draft.close, hstop]

omit h in
/-- A field behind a word starts at the eighth byte. -/
theorem ofFields?_behind {Γ : Layouts} {first t : Ty} {l : Layout} (field field' : String)
    (hword : first.size Γ = 8 ∧ first.align Γ = 8) (halign : t.align Γ = 1 ∨ t.align Γ = 8)
    (hl : Layout.ofFields? Γ [(field, first), (field', t)] = some l) :
    l = ⟨[⟨field, first, 0⟩, ⟨field', t, 8⟩], alignUp (8 + t.size Γ) 8, 8⟩ := by
  have hoffset : alignUp 8 (t.align Γ) = 8 := by rcases halign with ha | ha <;> rw [ha] <;> decide
  have hmax : max (8 : UInt64) (t.align Γ) = 8 := by
    rcases halign with ha | ha <;> rw [ha] <;> decide
  obtain ⟨p, hp, rfl⟩ := Layout.ofFields?_inv hl
  obtain ⟨p₁, hfirst, hp⟩ := Layout.Draft.foldlM_cons_inv hp
  obtain rfl : _ = p₁ := Option.some.inj ((push?_word field hword).symm.trans hfirst)
  obtain ⟨p₂, hsecond, hp⟩ := Layout.Draft.foldlM_cons_inv hp
  cases hp
  obtain ⟨hfields, hstop, hlargest⟩ := Layout.Draft.push?_inv hsecond
  dsimp only at hfields hstop hlargest
  rw [hoffset] at hfields hstop
  have hstop : p.stop = 8 + t.size Γ := UInt64.toNat.inj (by
    have hfits := p.stop.toNat_lt_size
    rw [UInt64.toNat_add, ← hstop, Nat.mod_eq_of_lt hfits])
  rw [Layout.Draft.close, hfields, hstop, hlargest, hmax]
  rfl

/-- **A handle is a pointer to its block.** -/
theorem layout_self : m.layout? name =
    some ⟨[⟨"block", .ptr (.struct ⟨lib.nextId, name ++ "_block"⟩), 0⟩], 8, 8⟩ := by
  obtain ⟨before, d, hlies⟩ := h.lies_self
  rw [← ofFields?_pointer (lib.push m).layouts, hlies.layout]
  exact hlies.layout? h.nodup_structs

section Later

variable {later : Library} (hlater : later.find? lib.nextId = some m)

include hlater

omit h in
/-- Every library that has the module has its layouts. -/
theorem find?_layouts (struct : String) :
    later.layouts.find? ⟨lib.nextId, struct⟩ = m.layout? struct := by
  rw [Library.layouts]
  dsimp only
  rw [hlater]
  rfl

omit h in
theorem length_structs_le : m.structs.length ≤ later.layouts.count := by
  have hfold : ∀ (ms : List Module) (n : Nat), n ≤ ms.foldl (fun n m => n + m.structs.length) n ∧
      ∀ m ∈ ms, m.structs.length ≤ ms.foldl (fun n m => n + m.structs.length) n := by
    intro ms
    induction ms with
    | nil => exact fun n => ⟨Nat.le_refl n, fun m hm => by cases hm⟩
    | cons first ms ih =>
      intro n
      obtain ⟨hle, hall⟩ := ih (n + first.structs.length)
      rw [List.foldl_cons]
      refine ⟨by omega, fun m hm => ?_⟩
      rcases List.mem_cons.1 hm with rfl | hm
      · omega
      · exact hall m hm
  rw [Library.layouts]
  dsimp only
  rw [← Array.foldl_toList]
  exact (hfold _ 0).2 m (Array.mem_toList_iff.2 (Array.mem_of_getElem? hlater))

/-- There are two structs at least, so that one may lie inside another. -/
theorem two_le_count : 2 ≤ later.layouts.count := by
  obtain ⟨_, d, hblock⟩ := h.lies_block
  obtain ⟨_, d', hself⟩ := h.lies_self
  have hne : d ≠ d' := by
    rintro rfl
    have hname : name ++ "_block" = name := hblock.name.symm.trans hself.name
    have hlen := congrArg (List.length ∘ String.toList) hname
    rw [Function.comp_apply, Function.comp_apply, String.toList_append, List.length_append] at hlen
    have hfive : "_block".toList.length = 6 := by decide
    omega
  have hpair : [d, d'] ⊆ m.structs :=
    List.cons_subset.2 ⟨hblock.mem, List.cons_subset.2 ⟨hself.mem, List.nil_subset _⟩⟩
  have hnodup : [d, d'].Nodup := by simpa using hne
  exact Nat.le_trans (hnodup.subperm hpair).length_le (length_structs_le hlater)

/-- A handle fits memory. -/
theorem fits_self : (Ty.struct ⟨lib.nextId, name⟩).Fits later.layouts 1 := by
  refine ⟨_, (find?_layouts hlater name).trans h.layout_self, ?_, .inr rfl,
    (by decide : 8 < bufferLimit), ?_⟩
  · refine ⟨Nat.le_refl 0, ?_⟩
    have hsize : (Ty.ptr (.struct ⟨lib.nextId, name ++ "_block"⟩)).size later.layouts = 8 := rfl
    rw [hsize]
    exact Nat.le_refl 8
  · intro f hf
    rw [List.mem_singleton.1 hf]
    trivial

theorem size_self : (Ty.struct ⟨lib.nextId, name⟩).size later.layouts = 8 := by
  rw [Ty.size, find?_layouts hlater, h.layout_self]
  rfl

omit hlater in
/-- A struct of the unit that a struct holds is a handle, or it is the struct that the payload
needs, and that holds handles at most. -/
theorem held {before : List StructDef} {form : StructForm} {d : StructDef}
    {fields : List (String × Ty)}
    (hlies : Lies (scenery lib name inner payload)
      (lib.push m).layouts m.structs form before d fields)
    {f : String × Ty} (hf : f ∈ fields) {ref : StructRef} (href : f.2 = .struct ref) :
    ref.home = lib.nextId ∧ ∃ form' ∈ (definitions inner).filterMap Scenery.structOf? ++
        [blockForm name payload, selfForm name], ∃ before' d' fields', d'.name = ref.name ∧
      Lies (scenery lib name inner payload)
      (lib.push m).layouts m.structs form' before' d' fields' ∧
      d'.name ∈ before.map (·.name) := by
  rcases hlies.held f hf ref href with ⟨hhome, hname⟩ | ⟨dep, hdep, -⟩
  · obtain ⟨d', hd', hd'name⟩ := List.mem_map.1 hname
    have hmem : d' ∈ m.structs := hlies.place.subset (List.mem_append_left _ hd')
    obtain ⟨form', hform', before', fields', hlies'⟩ := h.lies_of_mem hmem
    exact ⟨hhome, form', hform', before', d', fields', hd'name, hlies', hd'name ▸ hname⟩
  · cases hdep

omit h in
/-- Types of the unit are as large in every library that has the module. -/
theorem size_eq {t : Ty} (ht : ∀ ref, t = .struct ref → ref.home = lib.nextId) :
    t.size later.layouts = t.size (lib.push m).layouts ∧
      t.align later.layouts = t.align (lib.push m).layouts := by
  cases t with
  | struct ref =>
    obtain ⟨home, struct⟩ := ref
    obtain rfl : home = lib.nextId := ht _ rfl
    rw [Ty.size, Ty.size, Ty.align, Ty.align, find?_layouts hlater,
      find?_layouts (find?_push_nextId lib m)]
    exact ⟨rfl, rfl⟩
  | unit | bool | u8 | i64 | u64 | str | ptr _ | seq _ => exact ⟨rfl, rfl⟩

/-- A field of the struct that the payload needs is a scalar or a handle. -/
theorem fits_field {form : StructForm} {before before' : List StructDef} {d d' : StructDef}
    {fields fields' : List (String × Ty)}
    (hform : form ∈ (definitions inner).filterMap Scenery.structOf?)
    (hlies : Lies (scenery lib name inner payload)
      (lib.push m).layouts m.structs form before d fields)
    (hblock : Lies (scenery lib name inner payload) (lib.push m).layouts m.structs
      (blockForm name payload) before' d' fields') (hheld : d.name ∈ before'.map (·.name))
    {f : String × Ty} (hf : f ∈ fields) :
    f.2.Fits later.layouts 1 ∧ (f.2.size later.layouts).toNat ≤ 8 := by
  have hstorable := hlies.storable f hf
  rcases ht : f.2 with _ | _ | _ | _ | _ | _ | target | elem | ref
  case struct =>
    obtain ⟨hhome, form₁, hform₁, before₁, d₁, fields₁, hname, hlies₁, hmem⟩ := h.held hlies hf ht
    rcases List.mem_append.1 hform₁ with hown | hother
    · -- the struct would hold itself
      have hsame : form₁ = form := by
        rcases h.needs.structs with hnone | ⟨only, honly, -⟩
        · rw [hnone] at hown
          cases hown
        · rw [honly] at hown hform
          rw [List.mem_singleton.1 hown, List.mem_singleton.1 hform]
      refine absurd (?_ : d.name ∈ before.map (·.name)) (hlies.not_mem h.nodup_structs)
      rwa [hlies.name, ← hsame, ← hlies₁.name]
    · rcases List.mem_cons.1 hother with rfl | hself
      · -- the struct and the block would hold each other
        refine absurd (?_ : d'.name ∈ before.map (·.name))
          (hlies.asymm hblock h.nodup_structs hheld)
        rwa [hblock.name, ← hlies₁.name]
      · obtain rfl : form₁ = selfForm name := List.mem_singleton.1 hself
        obtain rfl : ref = ⟨lib.nextId, name⟩ := by
          rw [StructRef.mk.injEq]
          exact ⟨hhome, hname.symm.trans hlies₁.name⟩
        exact ⟨h.fits_self hlater, by rw [h.size_self hlater]; exact Nat.le_refl 8⟩
  case str | seq =>
    rw [ht] at hstorable
    cases hstorable
  all_goals exact ⟨trivial, Ty.size_le_eight fun _ href => by cases href⟩

/-- The struct that the payload needs fits memory. -/
theorem fits_inner {form : StructForm} {before before' : List StructDef} {d d' : StructDef}
    {fields fields' : List (String × Ty)}
    (hform : form ∈ (definitions inner).filterMap Scenery.structOf?)
    (hlies : Lies (scenery lib name inner payload)
      (lib.push m).layouts m.structs form before d fields)
    (hblock : Lies (scenery lib name inner payload) (lib.push m).layouts m.structs
      (blockForm name payload) before' d' fields') (hheld : d.name ∈ before'.map (·.name)) :
    (Ty.struct ⟨lib.nextId, form.name⟩).Fits later.layouts 2 ∧
      ((Ty.struct ⟨lib.nextId, form.name⟩).size later.layouts).toNat < 2 ^ 62 := by
  have hfields := fun f hf => h.fits_field hlater hform hlies hblock hheld (f := f) hf
  have hlength : fields.length < 2 ^ 58 := by
    rcases h.needs.structs with hnone | ⟨only, honly, hbound⟩
    · rw [hnone] at hform
      cases hform
    · rw [honly] at hform
      rw [← hlies.shapes.length_eq, List.mem_singleton.1 hform]
      exact hbound
  have hlayout : Layout.ofFields? later.layouts fields = some d.layout :=
    (Names.ofFields?_congr fun f hf => size_eq hlater fun ref href =>
      (h.held hlies hf href).1).trans hlies.layout
  have hword : UInt64.size = 2 ^ 64 := rfl
  have hlimit : bufferLimit = 2 ^ 63 := rfl
  have haligns := fun f hf => (hfields f hf).1.align
  obtain ⟨l, hl, hsize⟩ := Layout.ofFields?_ok haligns (fun f hf => (hfields f hf).2) (by omega)
  obtain rfl : d.layout = l := Option.some.inj (hlayout.symm.trans hl)
  obtain ⟨hpacked, halign⟩ := Layout.ofFields?_packed haligns hlayout
  have hfind : later.layouts.find? ⟨lib.nextId, form.name⟩ = some d.layout :=
    (find?_layouts hlater form.name).trans (hlies.layout? h.nodup_structs)
  refine ⟨⟨d.layout, hfind, hpacked, halign, by omega, fun f hf => ?_⟩, ?_⟩
  · exact (hfields _ (Layout.named_ofFields? hlayout ▸ List.mem_map_of_mem hf)).1
  · rw [Ty.size_struct hfind]
    omega

/-- **The payload fits memory**, with room to spare. -/
theorem fits_payload : ((scenery lib name inner payload).typeOf payload).Fits later.layouts 2 ∧
    (((scenery lib name inner payload).typeOf payload).size later.layouts).toNat < 2 ^ 62 := by
  obtain ⟨before, d, hblock⟩ := h.lies_block
  have hmem : ("payload", (scenery lib name inner payload).typeOf payload) ∈
      [("count", Ty.i64), ("payload", (scenery lib name inner payload).typeOf payload)] := by simp
  have hstorable := hblock.storable _ hmem
  have hheld : ∀ ref, (scenery lib name inner payload).typeOf payload = .struct ref → _ :=
    fun _ => h.held hblock hmem
  dsimp only at hstorable hheld
  generalize (scenery lib name inner payload).typeOf payload = t at hstorable hheld hblock
  rcases t with _ | _ | _ | _ | _ | _ | target | elem | ref
  case struct =>
    obtain ⟨hhome, form, hform, before₁, d₁, fields₁, hname, hlies, hin⟩ := hheld ref rfl
    obtain rfl : ref = ⟨lib.nextId, form.name⟩ := by
      rw [StructRef.mk.injEq]
      exact ⟨hhome, hname.symm.trans hlies.name⟩
    rcases List.mem_append.1 hform with hown | hother
    · exact h.fits_inner hlater hown hlies hblock hin
    · rcases List.mem_cons.1 hother with rfl | hself
      · -- the block would hold itself
        refine absurd (?_ : d.name ∈ before.map (·.name)) (hblock.not_mem h.nodup_structs)
        rwa [hblock.name, ← hlies.name]
      · obtain rfl : form = selfForm name := List.mem_singleton.1 hself
        have hsize := h.size_self hlater
        rw [selfForm]
        exact ⟨(h.fits_self hlater).mono (by omega), by rw [hsize]; decide⟩
  case str | seq => cases hstorable
  all_goals
    exact ⟨trivial, Nat.lt_of_le_of_lt (Ty.size_le_eight fun _ href => by cases href) (by decide)⟩

end Later

/-- How many bytes the payload takes. -/
def payloadSize (lib : Library) (name : String) (inner payload : Tree) (m : Module) : UInt64 :=
  ((scenery lib name inner payload).typeOf payload).size (lib.push m).layouts

theorem payload_home {ref : StructRef}
    (href : (scenery lib name inner payload).typeOf payload = .struct ref) :
    ref.home = lib.nextId := by
  obtain ⟨before, d, hblock⟩ := h.lies_block
  exact (h.held hblock (f := ("payload", (scenery lib name inner payload).typeOf payload)) (by simp)
    href).1

/-- It takes as many in every library that has the module. -/
theorem payloadSize_eq {later : Library} (hlater : later.find? lib.nextId = some m) :
    ((scenery lib name inner payload).typeOf payload).size later.layouts =
      payloadSize lib name inner payload m :=
  (size_eq hlater fun _ href => h.payload_home href).1

/-- How many bytes a block takes. -/
def blockSize (lib : Library) (name : String) (inner payload : Tree) (m : Module) : UInt64 :=
  alignUp (8 + payloadSize lib name inner payload m) 8

/-- **A block has the number of owners first and the payload at the eighth byte.** -/
theorem layout_block : m.layout? (name ++ "_block") =
    some ⟨[⟨"count", .i64, 0⟩, ⟨"payload", (scenery lib name inner payload).typeOf payload, 8⟩],
      blockSize lib name inner payload m, 8⟩ := by
  obtain ⟨before, d, hlies⟩ := h.lies_block
  have hfits := (h.fits_payload (find?_push_nextId lib m)).1
  rw [blockSize, payloadSize,
    ← ofFields?_behind "count" "payload" ⟨rfl, rfl⟩ hfits.align hlies.layout]
  exact hlies.layout? h.nodup_structs

/-- The payload lies inside the block, whose size no program is refused for. -/
theorem blockSize_bounds :
    8 + (payloadSize lib name inner payload m).toNat ≤ (blockSize lib name inner payload m).toNat ∧
      (blockSize lib name inner payload m).toNat < 2 ^ 63 := by
  have hsize := (h.fits_payload (find?_push_nextId lib m)).2
  rw [← payloadSize] at hsize
  have hword : UInt64.size = 2 ^ 64 := rfl
  have hsum : (8 + payloadSize lib name inner payload m).toNat =
      8 + (payloadSize lib name inner payload m).toNat := by
    have height : (8 : UInt64).toNat = 8 := rfl
    rw [UInt64.toNat_add, height, Nat.mod_eq_of_lt (by omega)]
  obtain ⟨hlo, hhi⟩ := alignUp_bounds (v := 8 + payloadSize lib name inner payload m) (.inr rfl)
  rw [blockSize]
  omega

end Wraps

end Kiln
