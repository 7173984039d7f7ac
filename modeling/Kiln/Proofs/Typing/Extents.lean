import Kiln.Proofs.Typing.Packing
import Kiln.Proofs.Typing.Standing
import Mathlib.Order.Bounds.Basic
/-!
# Exact sizes

Sizes are words, and what is added up to one may not fit. What a type takes in memory is told here
with numbers that are as large as they have to be (`Ty.extent`), from the types of the fields alone.
As long as that is a word, the layouts are those that the numbers tell (`Ty.Grounded.natural`): each
field lies at the first offset behind the one before it that suits it, and the struct ends at the
first multiple of its alignment that is behind all of them (`Layout.Natural`). So it is for the
structs inside, at every level.
-/

namespace Kiln

variable {Γ : Layouts}

/-! ## Rounding up -/

/-- The number, and what it lacks to a multiple of `align`. -/
def roundUp (n align : Nat) : Nat := n + (align - n % align) % align

theorem le_roundUp (n align : Nat) : n ≤ roundUp n align := Nat.le_add_right _ _

/-- Rounding up gives the least multiple that is not below. -/
theorem isLeast_roundUp {n align : Nat} (h : align = 1 ∨ align = 8) :
    IsLeast {k | align ∣ k ∧ n ≤ k} (roundUp n align) := by
  unfold roundUp
  rcases h with rfl | rfl
  · exact ⟨⟨Nat.one_dvd _, by omega⟩, fun k hk => by have := hk.2; omega⟩
  · exact ⟨⟨by omega, by omega⟩, fun k hk => by have := hk.1; have := hk.2; omega⟩

/-- Words are rounded up in this way, if the result is a word. -/
theorem alignUp?_eq {v a : UInt64} (ha : a = 1 ∨ a = 8) : alignUp? v a =
    if roundUp v.toNat a.toNat < UInt64.size then some (.ofNat (roundUp v.toNat a.toNat))
    else none := by
  have hrounded : (v.toNat + (max a.toNat 1 - 1)) / max a.toNat 1 * max a.toNat 1 =
      roundUp v.toNat a.toNat := by
    unfold roundUp
    rcases ha with rfl | rfl
    · rw [show max (1 : UInt64).toNat 1 = 1 from rfl, show (1 : UInt64).toNat = 1 from rfl]
      omega
    · rw [show max (8 : UInt64).toNat 1 = 8 from rfl, show (8 : UInt64).toNat = 8 from rfl]
      omega
  rw [alignUp?, hrounded]

theorem toNat_alignUp {v a : UInt64} (ha : a = 1 ∨ a = 8)
    (h : roundUp v.toNat a.toNat < UInt64.size) :
    (alignUp v a).toNat = roundUp v.toNat a.toNat := by
  rw [alignUp, alignUp?_eq ha, if_pos h, Option.getD_some, UInt64.toNat_ofNat_of_lt' h]

/-! ## Extents -/

/-- What a value takes in memory: how many bytes, at an address that is a multiple of what. -/
structure Extent where
  size : Nat
  align : Nat

namespace Extent

/-- One part more, behind what there is. -/
def push (e part : Extent) : Extent :=
  ⟨roundUp e.size part.align + part.size, max e.align part.align⟩

/-- Parts one behind the other, and room up to a multiple of the largest alignment. -/
def ofParts (parts : List Extent) : Extent :=
  let e := parts.foldl push ⟨0, 1⟩
  ⟨roundUp e.size e.align, e.align⟩

theorem size_le_foldl : ∀ (parts : List Extent) (e : Extent), e.size ≤ (parts.foldl push e).size
  | [], _ => Nat.le_refl _
  | part :: parts, e => by
    have hpush : e.size ≤ (e.push part).size :=
      Nat.le_trans (le_roundUp e.size part.align) (Nat.le_add_right _ _)
    exact Nat.le_trans hpush (size_le_foldl parts (e.push part))

/-- No part is larger than the whole. -/
theorem size_le_ofParts {part : Extent} {parts : List Extent} (h : part ∈ parts) :
    part.size ≤ (ofParts parts).size := by
  have hfold :
      ∀ (parts : List Extent) (e : Extent), part ∈ parts →
        part.size ≤ (parts.foldl push e).size := by
    intro parts
    induction parts with
    | nil => exact fun _ h => by cases h
    | cons first parts ih =>
      intro e h
      rcases List.mem_cons.1 h with rfl | h
      · exact Nat.le_trans (Nat.le_add_left _ _) (size_le_foldl parts (e.push part))
      · exact ih _ h
  exact Nat.le_trans (hfold parts _ h) (le_roundUp _ _)

end Extent

namespace Ty

/-- What a type takes, where structs lie at most the given number of levels inside each other. -/
def extentWithin (Γ : Layouts) : Nat → Ty → Extent
  | _, .unit | _, .str | _, .seq _ => ⟨0, 1⟩
  | _, .bool | _, .u8 => ⟨1, 1⟩
  | _, .i64 | _, .u64 | _, .ptr _ => ⟨8, 8⟩
  | 0, .struct _ => ⟨0, 1⟩
  | n + 1, .struct ref =>
    match Γ.find? ref with
    | some l => .ofParts (l.fields.map fun f => extentWithin Γ n f.type)
    | none => ⟨0, 1⟩

/-- **What a type takes in memory**, however much that is. -/
def extent (Γ : Layouts) (t : Ty) : Extent := t.extentWithin Γ Γ.count

end Ty

/-- What a grounded type takes does not depend on how many more levels there may be. -/
theorem Ty.Grounded.extentWithin_eq : ∀ {n k : Nat} {t : Ty}, t.Grounded Γ n → n ≤ k →
    t.extentWithin Γ k = t.extentWithin Γ n
  | n + 1, k, .struct ref, ⟨l, hl, hfields⟩, hle => by
    obtain ⟨k, rfl⟩ : ∃ j, k = j + 1 := ⟨k - 1, by omega⟩
    rw [extentWithin, extentWithin, hl]
    refine congrArg Extent.ofParts (List.map_congr_left fun f hf => ?_)
    exact (hfields f hf).extentWithin_eq (by omega)
  | n, k, .unit, _, _ | n, k, .bool, _, _ | n, k, .u8, _, _ | n, k, .i64, _, _ | n, k, .u64, _, _
  | n, k, .str, _, _ | n, k, .ptr _, _, _ | n, k, .seq _, _, _ => by cases n <;> cases k <;> rfl

/-- **A struct takes what its fields take**, one behind the other. -/
theorem Layouts.Grounded.extent_struct {ref : StructRef} {l : Layout} (hΓ : Γ.Grounded)
    (hl : Γ.find? ref = some l) :
    (Ty.struct ref).extent Γ = .ofParts (l.fields.map fun f => f.type.extent Γ) := by
  have hground := hΓ ref l hl
  rcases hcount : Γ.count with _ | n
  · rw [hcount] at hground
    exact hground.elim
  · rw [hcount] at hground
    obtain ⟨l', hl', hfields⟩ := hground
    cases hl.symm.trans hl'
    rw [Ty.extent, hcount, Ty.extentWithin, hl]
    refine congrArg Extent.ofParts (List.map_congr_left fun f hf => ?_)
    rw [Ty.extent, hcount]
    exact ((hfields f hf).extentWithin_eq (Nat.le_succ n)).symm

/-! ## Natural layouts -/

namespace Layout

/-- Each field lies at the first multiple of its alignment from `start` on, where the one before it
ends; the last one ends at `stop`. -/
def Tight (Γ : Layouts) : Nat → List Field → Nat → Prop
  | start, [], stop => start = stop
  | start, f :: fs, stop => IsLeast {k | (f.type.align Γ).toNat ∣ k ∧ start ≤ k} f.offset.toNat ∧
      Tight Γ (f.offset.toNat + (f.type.size Γ).toNat) fs stop

namespace Tight

variable {f : Field} {stop : Nat}

theorem packed : ∀ {fs : List Field} {start : Nat}, Tight Γ start fs stop → Packed Γ start fs stop
  | [], _, h => Nat.le_of_eq h
  | _ :: _, _, ⟨hleast, h⟩ => ⟨hleast.1.2, packed h⟩

/-- A field more behind the others. -/
theorem concat : ∀ {fs : List Field} {start : Nat}, Tight Γ start fs stop →
    IsLeast {k | (f.type.align Γ).toNat ∣ k ∧ stop ≤ k} f.offset.toNat →
      Tight Γ start (fs ++ [f]) (f.offset.toNat + (f.type.size Γ).toNat)
  | [], _, rfl, hleast => ⟨hleast, rfl⟩
  | _ :: _, _, ⟨hfirst, h⟩, hleast => ⟨hfirst, concat h hleast⟩

/-- What is behind all fields is behind the stop. -/
theorem stop_le : ∀ {fs : List Field} {start k : Nat}, Tight Γ start fs stop → start ≤ k →
    (∀ f ∈ fs, f.offset.toNat + (f.type.size Γ).toNat ≤ k) → stop ≤ k
  | [], _, _, rfl, hstart, _ => hstart
  | f :: _, _, _, ⟨_, h⟩, _, hall =>
    stop_le h (hall f List.mem_cons_self) fun g hg => hall g (List.mem_cons_of_mem f hg)

end Tight

/-- **The layout that a struct has by nature**: each field at the first offset behind the one before
it that suits it, the alignment the largest of them, and the size the least multiple of it that
covers all fields. -/
structure Natural (Γ : Layouts) (l : Layout) : Prop where
  tight : ∃ stop, Tight Γ 0 l.fields stop
  align : IsGreatest {a | a = 1 ∨ ∃ f ∈ l.fields, a = (f.type.align Γ).toNat} l.align.toNat
  size :
    IsLeast {k | l.align.toNat ∣ k ∧ ∀ f ∈ l.fields, f.offset.toNat + (f.type.size Γ).toNat ≤ k}
    l.size.toNat

/-- The fields of a natural layout are one behind the other and inside the struct. -/
theorem Natural.packed {l : Layout} (h : l.Natural Γ) : Packed Γ 0 l.fields l.size.toNat := by
  obtain ⟨stop, htight⟩ := h.tight
  exact htight.packed.mono (htight.stop_le (Nat.zero_le _) h.size.1.2)

/-- The layout is the one that its fields ask for, with the layouts that there are, and all of
them can be stored. -/
structure Regular (Γ : Layouts) (l : Layout) : Prop where
  made : ofFields? Γ (l.fields.map fun f => (f.name, f.type)) = some l
  storable : ∀ f ∈ l.fields, f.type.isStorable = true

end Layout

/-- All layouts are regular. -/
def Layouts.Regular (Γ : Layouts) : Prop := ∀ ref l, Γ.find? ref = some l → l.Regular Γ

namespace Ty

/-- All structs in the type, which lie at most `n` levels inside each other, have natural layouts,
with fields that can be stored. -/
def Natural (Γ : Layouts) : Nat → Ty → Prop
  | n + 1, .struct ref => ∃ l, Γ.find? ref = some l ∧ l.Natural Γ ∧
      ∀ f ∈ l.fields, f.type.isStorable = true ∧ f.type.Natural Γ n
  | 0, .struct _ => False
  | _, _ => True

theorem Natural.struct {n : Nat} {ref : StructRef} (h : (Ty.struct ref).Natural Γ n) :
    ∃ l k, Γ.find? ref = some l ∧ n = k + 1 ∧ l.Natural Γ ∧
      ∀ f ∈ l.fields, f.type.isStorable = true ∧ f.type.Natural Γ k := by
  cases n with
  | zero => exact h.elim
  | succ k =>
    obtain ⟨l, hl, hnatural, hfields⟩ := h
    exact ⟨l, k, hl, rfl, hnatural, hfields⟩

theorem Natural.grounded : ∀ {n : Nat} {t : Ty}, t.Natural Γ n → t.Grounded Γ n
  | _ + 1, .struct _, ⟨l, hl, _, hfields⟩ => ⟨l, hl, fun f hf => (hfields f hf).2.grounded⟩
  | n, .unit, _ | n, .bool, _ | n, .u8, _ | n, .i64, _ | n, .u64, _ | n, .str, _ | n, .ptr _, _ | n,
      .seq _, _ => by
    cases n <;> trivial

/-- The size and the alignment of the type are what they are exactly. -/
structure Exact (Γ : Layouts) (n : Nat) (t : Ty) : Prop where
  size : (t.size Γ).toNat = (t.extentWithin Γ n).size
  align : (t.align Γ).toNat = (t.extentWithin Γ n).align
  word : t.align Γ = 1 ∨ t.align Γ = 8

end Ty

/-! ## Where sizes are words -/

namespace Layout

/-- The layout under construction is what the parts so far ask for. -/
structure Draft.Exact (Γ : Layouts) (p : Draft) (e : Extent) : Prop where
  stop : p.stop.toNat = e.size
  align : p.align.toNat = e.align
  word : p.align = 1 ∨ p.align = 8
  tight : Tight Γ 0 p.fields p.stop.toNat
  greatest : IsGreatest {a | a = 1 ∨ ∃ f ∈ p.fields, a = (f.type.align Γ).toNat} p.align.toNat

theorem Draft.exact_empty : (⟨[], 0, 1⟩ : Draft).Exact Γ ⟨0, 1⟩ :=
  ⟨rfl, rfl, .inl rfl, rfl, .inl rfl, fun _ ha => by
    rcases ha with rfl | ⟨f, hf, -⟩
    · exact Nat.le_refl _
    · cases hf⟩

theorem toNat_max (a b : UInt64) : (max a b).toNat = max a.toNat b.toNat := by
  show (if a ≤ b then b else a).toNat = max a.toNat b.toNat
  split
  · rename_i hle
    exact (Nat.max_eq_right (UInt64.le_iff_toNat_le.1 hle)).symm
  · rename_i hlt
    exact (Nat.max_eq_left (Nat.le_of_lt (Nat.lt_of_not_le (mt UInt64.le_iff_toNat_le.2 hlt)))).symm

theorem Draft.Exact.toNat_offset {p : Draft} {e : Extent} {n : Nat} {field : String × Ty}
    (h : p.Exact Γ e) (hfield : field.2.Exact Γ n)
    (hroom : (e.push (field.2.extentWithin Γ n)).size < UInt64.size) :
    (alignUp p.stop (field.2.align Γ)).toNat = roundUp e.size (field.2.extentWithin Γ n).align := by
  rw [← h.stop, ← hfield.align]
  refine toNat_alignUp hfield.word (Nat.lt_of_le_of_lt ?_ hroom)
  rw [h.stop, hfield.align]
  exact Nat.le_add_right _ _

/-- A field is added where there is room for it. -/
theorem Draft.Exact.exists_push? {p : Draft} {e : Extent} {n : Nat} {field : String × Ty}
    (h : p.Exact Γ e) (hfield : field.2.Exact Γ n)
    (hroom : (e.push (field.2.extentWithin Γ n)).size < UInt64.size) :
    ∃ p', p.push? Γ field = some p' := by
  refine ⟨_, push?_eq ?_⟩
  rw [h.toNat_offset hfield hroom, hfield.size]
  exact hroom

theorem Draft.Exact.push {p p' : Draft} {e : Extent} {n : Nat} {field : String × Ty}
    (h : p.Exact Γ e) (hfield : field.2.Exact Γ n)
    (hroom : (e.push (field.2.extentWithin Γ n)).size < UInt64.size)
    (hpush : p.push? Γ field = some p') : p'.Exact Γ (e.push (field.2.extentWithin Γ n)) := by
  obtain ⟨hfields, hstop, halign⟩ := push?_inv hpush
  have hoffset := h.toNat_offset hfield hroom
  replace halign : p'.align.toNat = max p.align.toNat (field.2.align Γ).toNat := by
    rw [halign, toNat_max]
  have hword : (field.2.align Γ).toNat = 1 ∨ (field.2.align Γ).toNat = 8 :=
    hfield.word.imp (congrArg UInt64.toNat) (congrArg UInt64.toNat)
  refine ⟨?_, ?_, (push?_inv hpush).2.2 ▸ max_align h.word hfield.word, ?_, ?_⟩
  · rw [hstop, hoffset, Extent.push, hfield.size]
  · rw [halign, Extent.push, ← hfield.align, h.align]
  · rw [hfields, hstop]
    refine h.tight.concat (f := ⟨field.1, field.2, alignUp p.stop (field.2.align Γ)⟩) ?_
    rw [hoffset, ← hfield.align, ← h.stop]
    exact isLeast_roundUp hword
  · rw [halign, hfields]
    refine ⟨?_, ?_⟩
    · rcases Nat.le_total p.align.toNat (field.2.align Γ).toNat with hle | hle
      · rw [Nat.max_eq_right hle]
        exact .inr ⟨_, List.mem_append_right _ List.mem_cons_self, rfl⟩
      · rw [Nat.max_eq_left hle]
        rcases h.greatest.1 with hone | ⟨f, hf, heq⟩
        · exact .inl hone
        · exact .inr ⟨f, List.mem_append_left _ hf, heq⟩
    · rintro a (rfl | ⟨f, hf, rfl⟩)
      · exact Nat.le_trans (h.greatest.2 (.inl rfl)) (Nat.le_max_left _ _)
      · rcases List.mem_append.1 hf with hf | hf
        · exact Nat.le_trans (h.greatest.2 (.inr ⟨f, hf, rfl⟩)) (Nat.le_max_left _ _)
        · rw [List.mem_singleton.1 hf]
          exact Nat.le_max_right _ _

/-- Fields that are laid out as they have to be, one after the other: there is room for all. -/
theorem Draft.Exact.foldlM {n : Nat} : ∀ {fields : List (String × Ty)} {p : Draft} {e : Extent},
    p.Exact Γ e → (∀ f ∈ fields, f.2.Exact Γ n) →
      ((fields.map fun f => f.2.extentWithin Γ n).foldl Extent.push e).size < UInt64.size →
        ∃ p', fields.foldlM (Draft.push? Γ) p = some p' ∧
          p'.Exact Γ ((fields.map fun f => f.2.extentWithin Γ n).foldl Extent.push e)
  | [], p, _, h, _, _ => ⟨p, rfl, h⟩
  | field :: fields, _, e, h, hall, hroom => by
    obtain ⟨hfield, hfields⟩ := List.forall_mem_cons.1 hall
    have hfirst : (e.push (field.2.extentWithin Γ n)).size < UInt64.size :=
      Nat.lt_of_le_of_lt (Extent.size_le_foldl _ _) hroom
    obtain ⟨p₁, hpush⟩ := h.exists_push? hfield hfirst
    obtain ⟨p', hrest, hexact⟩ := (h.push hfield hfirst hpush).foldlM hfields hroom
    refine ⟨p', ?_, hexact⟩
    rw [List.foldlM_cons, hpush]
    exact hrest

/-- **A struct whose exact size is a word is laid out by nature**, and has that size. -/
theorem ofFields?_exact {fields : List (String × Ty)} {n : Nat}
    (hfields : ∀ f ∈ fields, f.2.Exact Γ n)
    (hroom : (Extent.ofParts (fields.map fun f => f.2.extentWithin Γ n)).size < UInt64.size) :
    ∃ l, ofFields? Γ fields = some l ∧ l.Natural Γ ∧
      l.size.toNat = (Extent.ofParts (fields.map fun f => f.2.extentWithin Γ n)).size ∧
      l.align.toNat = (Extent.ofParts (fields.map fun f => f.2.extentWithin Γ n)).align ∧
      (l.align = 1 ∨ l.align = 8) := by
  obtain ⟨p, hp, h⟩ := Draft.exact_empty.foldlM hfields (Nat.lt_of_le_of_lt (le_roundUp _ _) hroom)
  rw [Extent.ofParts, ← h.stop, ← h.align] at hroom
  have hsize : p.close.size.toNat = roundUp p.stop.toNat p.align.toNat := toNat_alignUp h.word hroom
  have hleast := isLeast_roundUp (n := p.stop.toNat)
    (h.word.imp (congrArg UInt64.toNat) (congrArg UInt64.toNat))
  refine ⟨p.close, congrArg (Option.map Draft.close) hp,
    ⟨⟨_, h.tight⟩, h.greatest, ?_⟩, ?_, h.align, h.word⟩
  · rw [hsize]
    refine ⟨⟨hleast.1.1, fun f hf => ?_⟩, fun k hk => hleast.2 ⟨hk.1, ?_⟩⟩
    · exact Nat.le_trans (h.tight.packed.of_mem hf).2 hleast.1.2
    · exact h.tight.stop_le (Nat.zero_le _) hk.2
  · rw [hsize, Extent.ofParts, h.stop, h.align]

end Layout

/-- **A type whose exact size is a word has natural layouts at every level**, and that size. -/
theorem Ty.Grounded.natural (hΓ : Γ.Regular) : ∀ {n : Nat} {t : Ty}, t.Grounded Γ n →
    (t.extentWithin Γ n).size < UInt64.size → t.Natural Γ n ∧ t.Exact Γ n
  | n + 1, .struct ref, ⟨l, hl, hfields⟩, hroom => by
    have hextent : (Ty.struct ref).extentWithin Γ (n + 1) =
        .ofParts (l.fields.map fun f => f.type.extentWithin Γ n) := by rw [extentWithin, hl]
    rw [hextent] at hroom
    have hpart : ∀ f ∈ l.fields, f.type.Natural Γ n ∧ f.type.Exact Γ n := fun f hf => by
      have hmem : f.type.extentWithin Γ n ∈ l.fields.map fun f => f.type.extentWithin Γ n :=
        List.mem_map.2 ⟨f, hf, rfl⟩
      exact (hfields f hf).natural hΓ (Nat.lt_of_le_of_lt (Extent.size_le_ofParts hmem) hroom)
    have hregular := hΓ ref l hl
    have hparts : (l.fields.map fun f => (f.name, f.type)).map (fun f => f.2.extentWithin Γ n) =
        l.fields.map fun f => f.type.extentWithin Γ n := by
      rw [List.map_map]
      rfl
    have hexact : ∀ f ∈ l.fields.map (fun f => (f.name, f.type)), f.2.Exact Γ n :=
      List.forall_mem_map.2 fun f hf => (hpart f hf).2
    obtain ⟨l', hmade, hnatural, hsize, halign, hword⟩ :=
      Layout.ofFields?_exact hexact (hparts ▸ hroom)
    obtain rfl : l = l' := Option.some.inj (hregular.made.symm.trans hmade)
    rw [hparts] at hsize halign
    refine ⟨⟨l, hl, hnatural, fun f hf => ⟨hregular.storable f hf, (hpart f hf).1⟩⟩, ?_, ?_, ?_⟩
    · rw [hextent, Ty.size_struct hl, hsize]
    · rw [hextent, Ty.align_struct hl, halign]
    · rwa [Ty.align_struct hl]
  | n, .unit, _, _ | n, .str, _, _ | n, .seq _, _, _ | n, .bool, _, _ | n, .u8, _, _ => by
    cases n <;> exact ⟨trivial, rfl, rfl, .inl rfl⟩
  | n, .i64, _, _ | n, .u64, _, _ | n, .ptr _, _, _ => by
    cases n <;> exact ⟨trivial, rfl, rfl, .inr rfl⟩

/-- **Fields that are not laid out take more than a word counts.** -/
theorem Layout.size_le_of_ofFields?_eq_none (hΓ : Γ.Regular) {fields : List (String × Ty)} {n : Nat}
    (hfields : ∀ f ∈ fields, f.2.Grounded Γ n) (h : ofFields? Γ fields = none) :
    UInt64.size ≤ (Extent.ofParts (fields.map fun f => f.2.extentWithin Γ n)).size := by
  refine Nat.le_of_not_lt fun hroom => ?_
  have hexact : ∀ f ∈ fields, f.2.Exact Γ n := fun f hf => by
    have hmem : f.2.extentWithin Γ n ∈ fields.map fun f => f.2.extentWithin Γ n :=
      List.mem_map.2 ⟨f, hf, rfl⟩
    exact ((hfields f hf).natural hΓ (Nat.lt_of_le_of_lt (Extent.size_le_ofParts hmem) hroom)).2
  obtain ⟨l, hl, -⟩ := ofFields?_exact hexact hroom
  rw [h] at hl
  cases hl

/-! ## Regular layouts -/

section Regular

variable (hΓ : Γ.Regular)

include hΓ

/-- Alignments are one or eight. -/
theorem Ty.Grounded.align : ∀ {n : Nat} {t : Ty}, t.Grounded Γ n → t.align Γ = 1 ∨ t.align Γ = 8
  | n + 1, .struct ref, ⟨l, hl, hfields⟩ => by
    have haligns : ∀ f ∈ l.fields.map (fun f => (f.name, f.type)),
        f.2.align Γ = 1 ∨ f.2.align Γ = 8 := List.forall_mem_map.2 fun f hf => (hfields f hf).align
    rw [Ty.align_struct hl]
    exact (Layout.ofFields?_packed haligns (hΓ ref l hl).made).2
  | n, .unit, _ | n, .str, _ | n, .seq _, _ | n, .bool, _ | n, .u8, _ => .inl rfl
  | n, .i64, _ | n, .u64, _ | n, .ptr _, _ => .inr rfl

/-- Whatever its size, a struct has its fields one behind the other and inside of it. -/
theorem Layout.Regular.packed {n : Nat} {l : Layout} (h : l.Regular Γ)
    (hfields : ∀ f ∈ l.fields, f.type.Grounded Γ n) :
    Packed Γ 0 l.fields l.size.toNat ∧ (l.align = 1 ∨ l.align = 8) :=
  ofFields?_packed (List.forall_mem_map.2 fun f hf => (hfields f hf).align hΓ) h.made

/-- **A type that can be stored fits memory**, if a buffer has room for it. -/
theorem Ty.Grounded.fits : ∀ {n : Nat} {t : Ty}, t.Grounded Γ n → t.isStorable = true →
    (t.size Γ).toNat < bufferLimit → t.Fits Γ n
  | n + 1, .struct ref, ⟨l, hl, hfields⟩, _, hsize => by
    rw [Ty.size_struct hl] at hsize
    obtain ⟨hpacked, halign⟩ := (hΓ ref l hl).packed hΓ hfields
    refine ⟨l, hl, hpacked, halign, hsize, fun f hf => ?_⟩
    have hin := (hpacked.of_mem hf).2
    exact (hfields f hf).fits ((hΓ ref l hl).storable f hf) (by omega)
  | n, .unit, _, _, _ | n, .bool, _, _, _ | n, .u8, _, _, _ | n, .i64, _, _, _ | n, .u64, _, _, _
  | n, .ptr _, _, _, _ => by
    cases n <;> trivial

end Regular

/-! ## Parts -/

/-- Behind so many bytes of a value of the type lies one of the other type: the value itself, or
something in a field of it. -/
inductive Ty.Part (Γ : Layouts) : Ty → Nat → Ty → Prop
  | whole (t : Ty) : Part Γ t 0 t
  | field {ref : StructRef} {l : Layout} {f : Field} {offset : Nat} {u : Ty} :
      Γ.find? ref = some l → f ∈ l.fields →
      Part Γ f.type offset u → Part Γ (.struct ref) (f.offset.toNat + offset) u

/-- **Parts of a type with natural layouts are inside of it**, at every level, and have natural
layouts. -/
theorem Ty.Natural.part {t u : Ty} {offset : Nat} (hpart : t.Part Γ offset u) :
    ∀ {n : Nat}, t.Natural Γ n →
    offset + (u.size Γ).toNat ≤ (t.size Γ).toNat ∧ ∃ k ≤ n, u.Natural Γ k := by
  induction hpart with
  | whole t => exact fun {n} h => ⟨Nat.le_of_eq (Nat.zero_add _), n, Nat.le_refl n, h⟩
  | @field ref l f offset u hl hf _ ih =>
    intro n h
    obtain ⟨l', n, hl', rfl, hnatural, hfields⟩ := h.struct
    cases hl.symm.trans hl'
    obtain ⟨hin, k, hk, hu⟩ := ih (hfields f hf).2
    have hfield := (hnatural.packed.of_mem hf).2
    have hsize : ((Ty.struct ref).size Γ).toNat = l.size.toNat := by rw [Ty.size_struct hl]
    exact ⟨by omega, k, Nat.le_succ_of_le hk, hu⟩

end Kiln
