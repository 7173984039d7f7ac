import Kiln.Proofs.Container.Calls
/-!
# What an array defines

An array that could be declared is two units that were lowered, whose trees are those of a wrapper
around a header and of the operations that see it, up to spans (`Indexed`). The elements are no
structs (`Indexed.elem_ne_struct`): the only structs that the units see are their own, and their
names hold the whole spelling of the elements' type. The header has the length first and the
elements behind it (`Indexed.layout_header`), so that the elements start at the sixteenth byte of a
block.
-/

namespace Kiln

open Blueprint Source

/-! ## Types of trees that name no struct -/

namespace TypeExpr

theorem length_mangleTree_le (head inner : Tree) (s : Span) :
    (mangleTree inner).length ≤ (mangleTree (.node [head, inner] s)).length := by
  have hpair : mangleTree (.node [head, inner] s) = mangleTree head ++ "_" ++
      mangleTree inner := rfl
  rw [hpair, String.length_append]
  omega

end TypeExpr

namespace Source.Scenery

variable {D E : Scenery} {n : Nat}

/-- Where short names are those of the language's own types alone, a tree that is spelled with such
names means the same, -/
theorem typeOf_congr (hD : ∀ s : String, s.length < n → D.typeNamed? s = Ty.primitive? s)
    (hE : ∀ s : String, s.length < n → E.typeNamed? s = Ty.primitive? s) (t : Tree) :
    (TypeExpr.mangleTree t).length < n → D.typeOf t = E.typeOf t := by
  induction t using Tree.inductItems with
  | leaf a s =>
    intro hlt
    cases a with
    | sym symbol => rw [typeOf, typeOf, hD symbol hlt, hE symbol hlt]
    | int _ | bool _ | str _ => rfl
  | node items s ih =>
    intro hlt
    rcases items with _ | ⟨head, _ | ⟨inner, _ | ⟨_, _⟩⟩⟩
    · rfl
    · rfl
    · rw [typeOf, typeOf, ih inner (by simp)
        (Nat.lt_of_le_of_lt (TypeExpr.length_mangleTree_le head inner s) hlt)]
    · rfl

/-- and that is no struct. -/
theorem typeOf_ne_struct (hD : ∀ s : String, s.length < n → D.typeNamed? s = Ty.primitive? s)
    {t : Tree} (hlt : (TypeExpr.mangleTree t).length < n) (ref : StructRef) :
    D.typeOf t ≠ .struct ref := by
  rcases t with ⟨a, s⟩ | ⟨items, s⟩
  · cases a with
    | sym symbol =>
      rw [typeOf, hD symbol hlt]
      unfold Ty.primitive?
      split <;> exact fun h => by cases h
    | int _ | bool _ | str _ => exact fun h => by cases h
  · rcases items with _ | ⟨head, _ | ⟨inner, _ | ⟨_, _⟩⟩⟩
    · exact fun h => by cases h
    · exact fun h => by cases h
    · rw [typeOf]
      split <;> exact fun h => by cases h
    · exact fun h => by cases h

end Source.Scenery

/-! ## The units of an array -/

/-- The modules are what the two units of an array were lowered to, in a library that has the base
library at its place: the wrapper of a header, and behind it the operations. The name of the array
is longer than the spelling of its elements. -/
structure Indexed (lib : Library) (name : String) (elem : Tree) (m ops : Module) : Prop where
  wraps : Wraps lib name (headerTree (suffixed name) elem) (suffixed name "_header") m
  settled : ∃ root names forms, Settled (lib.push m) [m] root names forms ops ∧
    (operationsTree (word name) (suffixed name) elem).respan default = root.respan default
  long : (TypeExpr.mangleTree elem).length < name.length

namespace Indexed

variable {lib : Library} {name : String} {elem : Tree} {m ops : Module}

/-- What the unit of the wrapper defines. -/
abbrev wrapped (lib : Library) (name : String) (elem : Tree) : Scenery :=
  Wraps.scenery lib name (headerTree (suffixed name) elem) (suffixed name "_header")

/-- What the unit of the operations defines and sees. -/
def scenery (lib : Library) (name : String) (elem : Tree) (m : Module) : Scenery :=
  .ofUnit (lib.push m).nextId [m] (operationsTree (word name) (suffixed name) elem)

/-- The type of the elements. -/
def elemType (lib : Library) (name : String) (elem : Tree) : Ty :=
  (wrapped lib name elem).typeOf elem

/-- The struct that a header is. -/
def headerForm (name : String) (elem : Tree) : StructForm :=
  ⟨name ++ "_header", [list [word "length", word "u64"], list [word "first", elem]], default⟩

theorem structs_header :
    (definitions (headerTree (suffixed name) elem)).filterMap Scenery.structOf? =
    [headerForm name elem] := rfl

/-- The names of the structs of a wrapper around a header start with the name of the array. -/
theorem le_length_struct {form : StructForm}
    (hform : form ∈ (definitions (headerTree (suffixed name) elem)).filterMap Scenery.structOf? ++
      [Wraps.blockForm name (suffixed name "_header"), Wraps.selfForm name]) :
    name.length ≤ form.name.length := by
  rw [structs_header] at hform
  simp only [List.cons_append, List.nil_append, List.mem_cons, List.not_mem_nil, or_false] at hform
  rcases hform with rfl | rfl | rfl
  · simp [headerForm]
  · simp [Wraps.blockForm]
  · exact Nat.le_refl _

variable (h : Indexed lib name elem m ops)

include h

theorem id : ops.id = (lib.push m).nextId := by
  obtain ⟨root, names, forms, hsettled, -⟩ := h.settled
  exact hsettled.id

/-! ## Types -/

omit h in
theorem typeNamed?_wrapped (s : String) (hs : s.length < name.length) :
    (wrapped lib name elem).typeNamed? s = Ty.primitive? s := by
  rw [Scenery.typeNamed?]
  rcases Ty.primitive? s with _ | t
  · have hnot : (wrapped lib name elem).structs.contains s = false := by
      rw [Bool.eq_false_iff]
      intro hmem
      rw [wrapped, Wraps.scenery, Scenery.ofUnit, Wraps.structs_eq, List.contains_iff_mem] at hmem
      obtain ⟨form, hform, rfl⟩ := List.mem_map.1 hmem
      exact absurd (le_length_struct hform) (Nat.not_le.2 hs)
    dsimp only
    rw [hnot]
    rfl
  · rfl

theorem layout?_short {s : String} (hs : s.length < name.length) : m.layout? s = none := by
  rw [Module.layout?, Option.map_eq_none_iff, List.find?_eq_none]
  intro d hd heq
  obtain ⟨form, hform, before, fields, hlies⟩ := h.wraps.lies_of_mem hd
  have hname : form.name = s := hlies.name.symm.trans (of_decide_eq_true heq)
  have hle := le_length_struct hform
  rw [hname] at hle
  omega

theorem typeNamed?_operations (s : String) (hs : s.length < name.length) :
    (scenery lib name elem m).typeNamed? s = Ty.primitive? s := by
  rw [Scenery.typeNamed?]
  rcases Ty.primitive? s with _ | t
  · have hstruct : m.structType? s = none := by
      rw [Module.structType?, h.layout?_short hs]
      rfl
    have hdeps : (scenery lib name elem m).deps.findSome? (·.structType? s) = none := by
      show [m].findSome? (·.structType? s) = none
      rw [List.findSome?_cons, hstruct]
      rfl
    exact hdeps
  · rfl

/-- Both units mean the same type by the tree that spells the elements' type, -/
theorem typeOf_elem : (scenery lib name elem m).typeOf elem = elemType lib name elem :=
  Scenery.typeOf_congr h.typeNamed?_operations typeNamed?_wrapped elem h.long

/-- and that is no struct. -/
theorem elem_ne_struct (ref : StructRef) : elemType lib name elem ≠ .struct ref :=
  Scenery.typeOf_ne_struct typeNamed?_wrapped h.long ref

/-- A struct of the wrapper is seen by the operations as well. -/
theorem typeOf_wrapped {struct : String} {layout : Layout}
    (hlayout : m.layout? struct = some layout) (hreserved : isReserved struct = false) :
    (scenery lib name elem m).typeOf (word struct) = .struct ⟨lib.nextId, struct⟩ := by
  have hstruct : m.structType? struct = some (.struct ⟨lib.nextId, struct⟩) := by
    rw [Module.structType?, hlayout, h.wraps.id]
    rfl
  have hdeps : (scenery lib name elem m).deps.findSome? (·.structType? struct) =
      some (.struct ⟨lib.nextId, struct⟩) := by
    show [m].findSome? (·.structType? struct) = _
    rw [List.findSome?_cons, hstruct]
  have hown : (scenery lib name elem m).structs = [] := rfl
  rw [word, Scenery.typeOf, Scenery.typeNamed?, primitive?_eq_none hreserved]
  dsimp only
  rw [hown, hdeps]
  rfl

theorem typeOf_self : (scenery lib name elem m).typeOf (word name) = .struct ⟨lib.nextId, name⟩ :=
  h.typeOf_wrapped h.wraps.layout_self (h.wraps.named.2 (Wraps.selfForm name) (by simp))

theorem typeOf_block : (scenery lib name elem m).typeOf (suffixed name "_block") =
    .struct ⟨lib.nextId, name ++ "_block"⟩ :=
  h.typeOf_wrapped h.wraps.layout_block
    (h.wraps.named.2 (Wraps.blockForm name (suffixed name "_header")) (by simp))

/-- The payload of a block is a header. -/
theorem typeOf_header : (wrapped lib name elem).typeOf (suffixed name "_header") =
    .struct ⟨lib.nextId, name ++ "_header"⟩ :=
  h.wraps.typeOf_word (rfl : (headerForm name elem).name = name ++ "_header")
    (by rw [structs_header]; simp)

/-! ## The header -/

theorem lies_header : ∃ before d, Lies (wrapped lib name elem) (lib.push m).layouts m.structs
    (headerForm name elem) before d [("length", .u64), ("first", elemType lib name elem)] := by
  obtain ⟨before, d, fields, hlies⟩ :=
    h.wraps.lies (by rw [structs_header]; simp : headerForm name elem ∈ _)
  have hshapes := hlies.shapes
  rw [headerForm] at hshapes
  obtain _ | ⟨hlength, _ | ⟨hfirst, _ | _⟩⟩ := hshapes
  rw [Wraps.fieldTree_list hlength, Wraps.fieldTree_list hfirst] at hlies
  exact ⟨before, d, hlies⟩

theorem elem_storable : (elemType lib name elem).isStorable = true := by
  obtain ⟨before, d, hlies⟩ := h.lies_header
  exact hlies.storable ("first", elemType lib name elem) (by simp)

/-- Elements fit memory whatever structs there are. -/
theorem elem_fits (Γ : Layouts) (n : Nat) : (elemType lib name elem).Fits Γ n := by
  have hstruct := h.elem_ne_struct
  have hstorable := h.elem_storable
  generalize elemType lib name elem = t at hstruct hstorable
  cases t with
  | struct ref => exact absurd rfl (hstruct ref)
  | str | seq _ => cases hstorable
  | unit | bool | u8 | i64 | u64 | ptr _ => cases n <;> trivial

/-- How many bytes an element takes. -/
def stride (lib : Library) (name : String) (elem : Tree) : UInt64 :=
  (elemType lib name elem).size Layouts.none

theorem size_elem (Γ : Layouts) : (elemType lib name elem).size Γ = stride lib name elem :=
  (h.elem_fits Layouts.none 0).size_eq fun _ _ hl => by cases hl

theorem stride_le : (stride lib name elem).toNat ≤ 8 := Ty.size_le_eight h.elem_ne_struct

/-- **A header has the length first and the elements behind it.** -/
theorem layout_header : m.layout? (name ++ "_header") =
    some ⟨[⟨"length", .u64, 0⟩, ⟨"first", elemType lib name elem, 8⟩],
      alignUp (8 + stride lib name elem) 8, 8⟩ := by
  obtain ⟨before, d, hlies⟩ := h.lies_header
  rw [← h.size_elem (lib.push m).layouts, ← Wraps.ofFields?_behind "length" "first" ⟨rfl, rfl⟩
    (h.elem_fits _ 0).align hlies.layout]
  exact hlies.layout? h.wraps.nodup_structs

end Indexed

end Kiln
