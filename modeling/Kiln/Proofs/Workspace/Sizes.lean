import Kiln.Proofs.Workspace.Storing
/-!
# Sizes that are words

Where the fields of a struct are laid out, offsets and sizes are words. A sum that is no word is
noticed: the host gives up on the unit, which then has a struct that takes more than can be counted.
Where an offset or a size is rounded up, the largest word stands in for a result that is no word,
and nothing else is done. No field fits behind that but one without any bytes, so in the end it is
the size of the struct that is cut off. Every struct of a unit that is accepted has its exact size
as far as that is a word, and the largest word otherwise; and its layout is the exact one just if
nothing that is rounded up runs over (`Workspace.Used.sizes_exact_iff`).
-/

namespace Kiln

open Source

variable {Γ : Layouts}

/-! ## Offsets and sums -/

namespace Extent

/-- Where parts lie, one behind the other, behind what there is. -/
def offsets : Extent → List Extent → List Nat
  | _, [] => []
  | e, part :: parts => roundUp e.size part.align :: offsets (e.push part) parts

/-- Where not all addresses suit the whole, not all suit some part. -/
theorem align_foldl_ne_one : ∀ {parts : List Extent} {e : Extent}, (parts.foldl push e).align ≠ 1 →
    e.align ≠ 1 ∨ ∃ part ∈ parts, part.align ≠ 1
  | [], _, h => .inl h
  | part :: parts, e, h => by
    rcases align_foldl_ne_one (e := e.push part) h with hpush | ⟨other, hother, hne⟩
    · by_cases he : e.align = 1
      · refine .inr ⟨part, List.mem_cons_self, fun hpart => hpush ?_⟩
        rw [push, he, hpart]
        rfl
      · exact .inl he
    · exact .inr ⟨other, List.mem_cons_of_mem part hother, hne⟩

end Extent

/-- A type takes some bytes if not all addresses suit it. -/
theorem Ty.size_extentWithin_pos : ∀ {n : Nat} {t : Ty}, (t.extentWithin Γ n).align ≠ 1 →
    0 < (t.extentWithin Γ n).size
  | n + 1, .struct ref, h => by
    rw [extentWithin] at h ⊢
    split at h
    · rcases Extent.align_foldl_ne_one h with hone | ⟨part, hpart, hne⟩
      · exact absurd rfl hone
      · obtain ⟨f, -, rfl⟩ := List.mem_map.1 hpart
        exact Nat.lt_of_lt_of_le (size_extentWithin_pos hne) (Extent.size_le_ofParts hpart)
    · exact absurd rfl h
  | 0, .struct _, h => absurd rfl h
  | n, .unit, h | n, .str, h | n, .seq _, h => by cases n <;> exact absurd rfl h
  | n, .bool, _ | n, .u8, _ | n, .i64, _ | n, .u64, _ | n, .ptr _, _ => by
    cases n <;> exact Nat.succ_pos _

/-- What is rounded up to no word is cut off at the largest. -/
theorem alignUp_saturated {v a : UInt64} (ha : a = 1 ∨ a = 8)
    (h : UInt64.size ≤ roundUp v.toNat a.toNat) :
    alignUp? v a = none ∧ alignUp v a = 0xffffffffffffffff ∧ a = 8 := by
  have hnone : alignUp? v a = none := by rw [alignUp?_eq ha, if_neg (Nat.not_lt.2 h)]
  refine ⟨hnone, by rw [alignUp, hnone]; rfl, ha.resolve_left ?_⟩
  rintro rfl
  have hv := v.toNat_lt_size
  rw [roundUp, show (1 : UInt64).toNat = 1 from rfl] at h
  omega

namespace Layout

/-- Whatever is rounded up has a result, where fields are added to the draft and the struct is
closed behind them. -/
def Draft.rounds (Γ : Layouts) : Draft → List (String × Ty) → Bool
  | p, [] => (alignUp? p.stop p.align).isSome
  | p, field :: fields =>
    (alignUp? p.stop (field.2.align Γ)).isSome && (p.push? Γ field).any fun p => p.rounds Γ fields

/-- Whatever is rounded up has a result, where the struct is laid out. -/
def rounds (Γ : Layouts) (l : Layout) : Bool :=
  Draft.rounds Γ ⟨[], 0, 1⟩ (l.fields.map fun f => (f.name, f.type))

/-- The layout of the struct is the exact one. -/
structure IsExact (Γ : Layouts) (ref : StructRef) (l : Layout) : Prop where
  size : l.size.toNat = ((Ty.struct ref).extent Γ).size
  align : l.align.toNat = ((Ty.struct ref).extent Γ).align
  offsets :
    l.fields.map (·.offset.toNat) = Extent.offsets ⟨0, 1⟩ (l.fields.map fun f => f.type.extent Γ)

namespace Draft

variable {n : Nat}

/-- Where the exact size is a word, whatever is rounded up has a result, as all of it is below. -/
theorem Exact.rounds : ∀ {fields : List (String × Ty)} {p : Draft} {e : Extent}, p.Exact Γ e →
    (∀ f ∈ fields, f.2.Exact Γ n) →
      roundUp ((fields.map fun f => f.2.extentWithin Γ n).foldl Extent.push e).size
        ((fields.map fun f => f.2.extentWithin Γ n).foldl Extent.push e).align < UInt64.size →
          p.rounds Γ fields = true
  | [], p, e, h, _, hword => by
    rw [List.map_nil, List.foldl_nil, ← h.stop, ← h.align] at hword
    rw [Draft.rounds, alignUp?_eq h.word, if_pos hword]
    rfl
  | field :: fields, p, e, h, hall, hword => by
    obtain ⟨hfield, hfields⟩ := List.forall_mem_cons.1 hall
    have hroom : (e.push (field.2.extentWithin Γ n)).size < UInt64.size :=
      Nat.lt_of_le_of_lt (Nat.le_trans (Extent.size_le_foldl _ _) (le_roundUp _ _)) hword
    have hoffset : roundUp p.stop.toNat (field.2.align Γ).toNat < UInt64.size := by
      rw [h.stop, hfield.align]
      exact Nat.lt_of_le_of_lt (Nat.le_add_right _ _) hroom
    obtain ⟨p', hpush⟩ := h.exists_push? hfield hroom
    rw [Draft.rounds, alignUp?_eq hfield.word, if_pos hoffset, hpush]
    exact (h.push hfield hroom hpush).rounds hfields hword

/-- What is rounded up last is the size. -/
theorem isSome_of_rounds :
    ∀ {fields : List (String × Ty)} {p p' : Draft}, p.rounds Γ fields = true →
    fields.foldlM (push? Γ) p = some p' → (alignUp? p'.stop p'.align).isSome = true
  | [], _, _, h, hfold => by
    cases hfold
    exact h
  | field :: fields, p, p', h, hfold => by
    obtain ⟨p₁, hpush, hrest⟩ := foldlM_cons_inv hfold
    rw [Draft.rounds, hpush] at h
    exact isSome_of_rounds (Bool.and_eq_true_iff.1 h).2 hrest

/-- Fields are added at their exact offsets, if these are words. -/
theorem Exact.offsets_foldlM :
    ∀ {fields : List (String × Ty)} {p p' : Draft} {e : Extent}, p.Exact Γ e →
    (∀ f ∈ fields, f.2.Exact Γ n) →
      ((fields.map fun f => f.2.extentWithin Γ n).foldl Extent.push e).size < UInt64.size →
        fields.foldlM (push? Γ) p = some p' → p'.fields.map (·.offset.toNat) =
          p.fields.map (·.offset.toNat) ++ e.offsets (fields.map fun f => f.2.extentWithin Γ n)
  | [], _, _, _, _, _, _, hfold => by
    cases hfold
    exact (List.append_nil _).symm
  | field :: fields, p, p', e, h, hall, hword, hfold => by
    obtain ⟨hfield, hfields⟩ := List.forall_mem_cons.1 hall
    have hroom : (e.push (field.2.extentWithin Γ n)).size < UInt64.size :=
      Nat.lt_of_le_of_lt (Extent.size_le_foldl _ _) hword
    obtain ⟨p₁, hpush, hrest⟩ := foldlM_cons_inv hfold
    rw [(h.push hfield hroom hpush).offsets_foldlM hfields hword hrest, (push?_inv hpush).1,
      List.map_append, List.map_singleton, h.toNat_offset hfield hroom, List.append_assoc]
    rfl

end Draft

end Layout

/-! ## Sizes that are cut off -/

/-- The largest word stands in for the size of the type. -/
structure Ty.Saturated (Γ : Layouts) (n : Nat) (t : Ty) : Prop where
  size : t.size Γ = 0xffffffffffffffff
  align : t.align Γ = 8
  extent_size : UInt64.size ≤ (t.extentWithin Γ n).size
  extent_align : (t.extentWithin Γ n).align = 8

namespace Layout

/-- The largest word stands in for the offset behind the fields. -/
structure Draft.Saturated (p : Draft) (e : Extent) : Prop where
  stop : p.stop = 0xffffffffffffffff
  align : p.align = 8
  extent_size : UInt64.size ≤ e.size
  extent_align : e.align = 8

namespace Draft

variable {p p' : Draft} {e : Extent} {n : Nat} {field : String × Ty}

theorem eq_of_toNat_ge {v : UInt64} (h : UInt64.size - 1 ≤ v.toNat) : v = 0xffffffffffffffff := by
  have hv := v.toNat_lt_size
  have hlargest : (0xffffffffffffffff : UInt64).toNat = UInt64.size - 1 := rfl
  exact UInt64.toNat.inj (by omega)

/-- A field of exact size is added at its exact offset: behind an offset that is cut off there is no
room for a field that had to be aligned. -/
theorem Exact.push_lt (h : p.Exact Γ e) (hfield : field.2.Exact Γ n)
    (hpush : p.push? Γ field = some p') :
    (e.push (field.2.extentWithin Γ n)).size < UInt64.size := by
  obtain ⟨-, hstop, -⟩ := push?_inv hpush
  have hword := p'.stop.toNat_lt_size
  rw [Extent.push, ← h.stop, ← hfield.align, ← hfield.size]
  dsimp only
  rcases Nat.lt_or_ge (roundUp p.stop.toNat (field.2.align Γ).toNat) UInt64.size with hlt | hge
  · rw [← toNat_alignUp hfield.word hlt]
    omega
  · obtain ⟨-, hoffset, halign⟩ := alignUp_saturated hfield.word hge
    have hpos : 0 < (field.2.extentWithin Γ n).size :=
      Ty.size_extentWithin_pos (by rw [← hfield.align, halign]; decide)
    have hlargest : (0xffffffffffffffff : UInt64).toNat = UInt64.size - 1 := rfl
    rw [hoffset, hlargest, hfield.size] at hstop
    omega

/-- Behind a field whose size is cut off, so is the offset. -/
theorem Exact.push_saturated (h : p.Exact Γ e) (hfield : field.2.Saturated Γ n)
    (hpush : p.push? Γ field = some p') : p'.Saturated (e.push (field.2.extentWithin Γ n)) := by
  obtain ⟨-, hstop, halign⟩ := push?_inv hpush
  have hlargest : (0xffffffffffffffff : UInt64).toNat = UInt64.size - 1 := rfl
  rw [hfield.size, hlargest] at hstop
  refine ⟨eq_of_toNat_ge (by omega), ?_, Nat.le_trans hfield.extent_size (Nat.le_add_left _ _), ?_⟩
  · rw [halign, hfield.align]
    rcases h.word with hp | hp <;> rw [hp] <;> decide
  · rw [Extent.push, hfield.extent_align, ← h.align]
    rcases h.word with hp | hp <;> rw [hp] <;> rfl

/-- Where an offset is cut off, it stays so. -/
theorem Saturated.push (h : p.Saturated e) (hfield : field.2.Exact Γ n ∨ field.2.Saturated Γ n)
    (hpush : p.push? Γ field = some p') : p'.Saturated (e.push (field.2.extentWithin Γ n)) := by
  obtain ⟨-, hstop, halign⟩ := push?_inv hpush
  have hword : field.2.align Γ = 1 ∨ field.2.align Γ = 8 :=
    hfield.elim (·.word) fun h => .inr h.align
  have hexact : (field.2.align Γ).toNat = (field.2.extentWithin Γ n).align :=
    hfield.elim (·.align) fun h => by rw [h.align, h.extent_align]; rfl
  have hup := (alignUp_bounds (v := p.stop) hword).1
  have hlargest : (0xffffffffffffffff : UInt64).toNat = UInt64.size - 1 := rfl
  rw [h.stop, hlargest] at hup
  refine ⟨eq_of_toNat_ge ?_, ?_, Nat.le_trans h.extent_size ?_, ?_⟩
  · rw [hstop, h.stop]
    omega
  · rw [halign, h.align]
    rcases hword with ha | ha <;> rw [ha] <;> decide
  · exact Nat.le_trans (le_roundUp _ _) (Nat.le_add_right _ _)
  · rw [Extent.push, h.extent_align, ← hexact]
    rcases hword with ha | ha <;> rw [ha] <;> rfl

/-- **Fields are laid out exactly, or the offset behind them is cut off.** -/
theorem exact_or_saturated : ∀ {fields : List (String × Ty)} {p p' : Draft} {e : Extent},
    p.Exact Γ e ∨ p.Saturated e → (∀ f ∈ fields, f.2.Exact Γ n ∨ f.2.Saturated Γ n) →
      fields.foldlM (push? Γ) p = some p' →
        p'.Exact Γ ((fields.map fun f => f.2.extentWithin Γ n).foldl Extent.push e) ∨
          p'.Saturated ((fields.map fun f => f.2.extentWithin Γ n).foldl Extent.push e)
  | [], _, _, _, h, _, hfold => by
    cases hfold
    exact h
  | field :: fields, p, p', e, h, hall, hfold => by
    obtain ⟨hfield, hfields⟩ := List.forall_mem_cons.1 hall
    obtain ⟨p₁, hpush, hrest⟩ := foldlM_cons_inv hfold
    have hstep : p₁.Exact Γ (e.push (field.2.extentWithin Γ n)) ∨
        p₁.Saturated (e.push (field.2.extentWithin Γ n)) := by
      rcases h with hp | hp
      · rcases hfield with hf | hf
        · exact .inl (hp.push hf (hp.push_lt hf hpush) hpush)
        · exact .inr (hp.push_saturated hf hpush)
      · exact .inr (hp.push hfield hpush)
    have hends := exact_or_saturated hstep hfields hrest
    exact hends

/-- Where the exact size is no word, the rounding of the size runs over. -/
theorem close_saturated (h : p.Exact Γ e ∨ p.Saturated e)
    (hsize : UInt64.size ≤ roundUp e.size e.align) :
    alignUp? p.stop p.align = none ∧ p.align = 8 ∧ e.align = 8 := by
  rcases h with hp | hp
  · rw [← hp.stop, ← hp.align] at hsize
    obtain ⟨hnone, -, halign⟩ := alignUp_saturated hp.word hsize
    exact ⟨hnone, halign, by rw [← hp.align, halign]; rfl⟩
  · refine ⟨?_, hp.align, hp.extent_align⟩
    rw [hp.stop, hp.align]
    decide

end Draft

/-- A struct whose exact size is no word has the largest word for its size, which is what the last
rounding comes to. -/
theorem Regular.saturated {l : Layout} {n : Nat} (h : l.Regular Γ)
    (hfields : ∀ f ∈ l.fields, f.type.Exact Γ n ∨ f.type.Saturated Γ n)
    (hsize : UInt64.size ≤ (Extent.ofParts (l.fields.map fun f => f.type.extentWithin Γ n)).size) :
    l.size = 0xffffffffffffffff ∧ l.align = 8 ∧
      (Extent.ofParts (l.fields.map fun f => f.type.extentWithin Γ n)).align = 8 ∧
      l.rounds Γ = false := by
  obtain ⟨p, hp, hclose⟩ := ofFields?_inv h.made
  have hends := Draft.exact_or_saturated (.inl Draft.exact_empty) (List.forall_mem_map.2 hfields) hp
  rw [List.map_map] at hends
  obtain ⟨hnone, halign, hexact⟩ := Draft.close_saturated hends hsize
  refine ⟨?_, hclose ▸ halign, hexact, Bool.eq_false_iff.2 fun hrounds => ?_⟩
  · rw [hclose, Draft.close, alignUp, hnone]
    rfl
  · have hsome := Draft.isSome_of_rounds hrounds hp
    rw [hnone] at hsome
    cases hsome

end Layout

/-- **The size of a type is the exact one, or it is cut off.** -/
theorem Ty.Grounded.exact_or_saturated (hΓ : Γ.Regular) : ∀ {n : Nat} {t : Ty}, t.Grounded Γ n →
    t.Exact Γ n ∨ t.Saturated Γ n
  | n + 1, .struct ref, hground => by
    have ⟨l, hl, hfields⟩ := hground
    have hextent : (Ty.struct ref).extentWithin Γ (n + 1) =
        .ofParts (l.fields.map fun f => f.type.extentWithin Γ n) := by rw [extentWithin, hl]
    rcases Nat.lt_or_ge ((Ty.struct ref).extentWithin Γ (n + 1)).size UInt64.size with hlt | hge
    · exact .inl (hground.natural hΓ hlt).2
    · rw [hextent] at hge
      obtain ⟨hsize, halign, hexact, -⟩ :=
        (hΓ ref l hl).saturated (fun f hf => (hfields f hf).exact_or_saturated hΓ) hge
      exact .inr ⟨(size_struct hl).trans hsize, (align_struct hl).trans halign, hextent ▸ hge,
        hextent ▸ hexact⟩
  | n, .unit, _ | n, .str, _ | n, .seq _, _ | n, .bool, _ | n, .u8, _ => by
    cases n <;> exact .inl ⟨rfl, rfl, .inl rfl⟩
  | n, .i64, _ | n, .u64, _ | n, .ptr _, _ => by
    cases n <;> exact .inl ⟨rfl, rfl, .inr rfl⟩

/-! ## Structs -/

section Structs

variable {ref : StructRef} {l : Layout} (hΓ : Γ.Grounded) (hregular : Γ.Regular)
  (hl : Γ.find? ref = some l)

include hΓ hl

/-- The types of fields are grounded. -/
theorem Layouts.Grounded.field {f : Field} (hf : f ∈ l.fields) : f.type.Grounded Γ Γ.count := by
  obtain ⟨k, hfields⟩ := (hΓ ref l hl).fields hl
  exact hΓ.of_find? fun ref href => (href ▸ hfields f hf : (Ty.struct ref).Grounded Γ k).struct

include hregular

/-- **The size of a struct is the exact one, cut off at the largest word.** -/
theorem Layout.size_eq_min :
    l.size.toNat = min ((Ty.struct ref).extent Γ).size (UInt64.size - 1) := by
  have hword := l.size.toNat_lt_size
  rw [← Ty.size_struct hl] at hword ⊢
  rcases (hΓ ref l hl).exact_or_saturated hregular with hexact | hsat
  · have hsize := hexact.size
    rw [← Ty.extent] at hsize
    omega
  · have hsize := hsat.extent_size
    rw [← Ty.extent] at hsize
    rw [hsat.size, Nat.min_eq_right (by omega)]
    rfl

/-- **Whatever is rounded up for a struct has a result just if its exact size is a word.** -/
theorem Layout.rounds_iff : l.rounds Γ = true ↔ ((Ty.struct ref).extent Γ).size < UInt64.size := by
  have hextent := hΓ.extent_struct hl
  constructor
  · intro hrounds
    by_contra hsize
    rw [hextent] at hsize
    obtain ⟨-, -, -, hfalse⟩ := (hregular ref l hl).saturated
      (fun f hf => (hΓ.field hl hf).exact_or_saturated hregular) (Nat.le_of_not_lt hsize)
    rw [hrounds] at hfalse
    cases hfalse
  · intro hword
    rw [hextent] at hword
    refine Draft.exact_empty.rounds (n := Γ.count) (List.forall_mem_map.2 fun f hf => ?_) ?_
    · have hpart :
          f.type.extent Γ ∈ l.fields.map fun f => f.type.extent Γ := List.mem_map.2 ⟨f, hf, rfl⟩
      exact ((hΓ.field hl hf).natural hregular
        (Nat.lt_of_le_of_lt (Extent.size_le_ofParts hpart) hword)).2
    · rw [List.map_map]
      exact hword

/-- **A struct has its exact layout just if its exact size is a word.** -/
theorem Layout.isExact_iff : l.IsExact Γ ref ↔ ((Ty.struct ref).extent Γ).size < UInt64.size := by
  refine ⟨fun h => h.size ▸ l.size.toNat_lt_size, fun hword => ?_⟩
  obtain ⟨-, hexact⟩ := (hΓ ref l hl).natural hregular hword
  have hsize := hexact.size
  have halign := hexact.align
  rw [Ty.size_struct hl] at hsize
  rw [Ty.align_struct hl] at halign
  refine ⟨hsize, halign, ?_⟩
  rw [hΓ.extent_struct hl] at hword
  have hfields : ∀ f ∈ l.fields.map (fun f => (f.name, f.type)), f.2.Exact Γ Γ.count := by
    refine List.forall_mem_map.2 fun f hf => ((hΓ.field hl hf).natural hregular ?_).2
    exact Nat.lt_of_le_of_lt (Extent.size_le_ofParts (List.mem_map.2 ⟨f, hf, rfl⟩)) hword
  have hparts : (l.fields.map fun f => (f.name, f.type)).map (fun f => f.2.extentWithin Γ Γ.count) =
      l.fields.map fun f => f.type.extent Γ := by
    rw [List.map_map]
    rfl
  obtain ⟨p, hp, hclose⟩ := ofFields?_inv (hregular ref l hl).made
  have hoffsets := Draft.exact_empty.offsets_foldlM hfields
    (hparts ▸ Nat.lt_of_le_of_lt (le_roundUp _ _) hword) hp
  rw [hparts] at hoffsets
  rw [← List.nil_append (Extent.offsets _ _), ← List.map_nil, ← hoffsets]
  exact congrArg (fun l : Layout => l.fields.map (·.offset.toNat)) hclose

end Structs

/-! ## Units -/

/-- The layout of a struct of a unit that is accepted is found under its name. -/
theorem find?_layouts_of_lowerUnit {lib : Library} {name : String} {deps : List Module}
    {root : Tree} {u : LoweredUnit} (hdeps : ∀ d ∈ deps, lib.find? d.id = some d)
    (hu : lowerUnit lib name deps root = .ok u) {d : StructDef} (hd : d ∈ u.module.structs) :
    (lib.push u.module).layouts.find? ⟨u.module.id, d.name⟩ = some d.layout := by
  obtain ⟨names, forms, hsettled⟩ := settled_of_lowerUnit hu
  obtain ⟨form, -, before, fields, hlies⟩ :=
    hsettled.lies_of_mem rfl (fun d hd => Library.ne_nextId (hdeps d hd)) hd
  have hlayout := hlies.layout? hsettled.nodup_structs
  rw [← hlies.name] at hlayout
  rw [hsettled.id]
  exact (find?_layouts_push _ _ _).trans hlayout

/-- **The size of a struct is the exact one, cut off at the largest word.** Size and offsets are
exact just if the exact size is a word, and just if whatever is rounded up for the struct has a
result. This is so for every struct of every unit that is accepted; and no sum that is no word keeps
a unit from it, unless it has a struct that takes more than can be counted. -/
theorem Workspace.Used.sizes_exact_iff {w : Workspace} (hw : w.Used) {name : String}
    {deps : List Module} {root : Tree} (hdeps : ∀ d ∈ deps, w.library.find? d.id = some d) :
    (∀ struct s, lowerUnit w.library name deps root = .error ⟨.oversized struct, s⟩ →
      Vast w.library deps root struct) ∧
    ∀ u, lowerUnit w.library name deps root = .ok u →
      let Γ := (w.library.push u.module).layouts
      ∀ d ∈ u.module.structs,
        let ref : StructRef := ⟨u.module.id, d.name⟩
        d.layout.size.toNat = min ((Ty.struct ref).extent Γ).size (UInt64.size - 1) ∧
          (d.layout.IsExact Γ ref ↔ ((Ty.struct ref).extent Γ).size < UInt64.size) ∧
          (d.layout.IsExact Γ ref ↔ d.layout.rounds Γ = true) := by
  refine ⟨fun struct s h => vast_of_oversized hdeps hw.linked.grounded hw.regular h, fun u hu => ?_⟩
  intro Γ d hd ref
  have hregular : Γ.Regular := regular_of_lowerUnit hdeps hw.linked.grounded hw.regular hu
  obtain ⟨-, -, hgrounded⟩ := hw.linked.push hdeps hu
  have hfound : Γ.find? ref = some d.layout := find?_layouts_of_lowerUnit hdeps hu hd
  have hexact := Layout.isExact_iff hgrounded hregular hfound
  exact ⟨Layout.size_eq_min hgrounded hregular hfound, hexact,
    hexact.trans (Layout.rounds_iff hgrounded hregular hfound).symm⟩

/-- Of a struct around another, and of that one, nothing that is rounded up runs over. -/
theorem Workspace.Used.sizes_exact_iff_line : ∃ u, lowerUnit .initial "line" [] lineUnit = .ok u ∧
    ∀ d ∈ u.module.structs,
      d.layout.IsExact (Library.initial.push u.module).layouts ⟨u.module.id, d.name⟩ := by
  have hused : (Workspace.initial 0 (.empty "")).Used := .initial 0 _
  obtain ⟨u, hu, hcheck⟩ := exists_lowered "line" lineUnit (fun u => u.module.structs.all fun d =>
    d.layout.rounds (Library.initial.push u.module).layouts) (by decide +kernel)
  refine ⟨u, hu, fun d hd => ?_⟩
  obtain ⟨-, -, hexact⟩ := (hused.sizes_exact_iff (fun _ hd => by cases hd)).2 u hu d hd
  exact hexact.2 (List.all_eq_true.1 hcheck d hd)

/-- `(struct v (a t) (b t) (c i64) (d u8))` -/
def brim : Tree :=
  .list [.word "struct", .word "v", .list [.word "a", .word "t"], .list [.word "b", .word "t"],
    .list [.word "c", .word "i64"], .list [.word "d", .word "u8"]]

/-- A struct of these fields takes 2^64 bytes, if the struct of the name `t` has the right size. -/
theorem Layouts.size_extent_brim (hΓ : Γ.Grounded) (hregular : Γ.Regular) {home : ModuleId}
    {t v : Layout} (ht : Γ.find? ⟨home, "t"⟩ = some t) (hsize : t.size = 0x7ffffffffffffff8)
    (halign : t.align = 8) (hrounds : t.rounds Γ = true) (hv : Γ.find? ⟨home, "v"⟩ = some v)
    (htypes : v.fields.map (·.type) = [.struct ⟨home, "t"⟩, .struct ⟨home, "t"⟩, .i64, .u8]) :
    ((Ty.struct ⟨home, "v"⟩).extent Γ).size = 2 ^ 64 := by
  have hexact :=
    (Layout.isExact_iff hΓ hregular ht).2 ((Layout.rounds_iff hΓ hregular ht).1 hrounds)
  have hinner : (Ty.struct ⟨home, "t"⟩).extent Γ = ⟨2 ^ 63 - 8, 8⟩ := by
    rw [Extent.mk.injEq, ← hexact.size, ← hexact.align, hsize, halign]
    exact ⟨rfl, rfl⟩
  have hwords : Ty.i64.extent Γ = ⟨8, 8⟩ ∧ Ty.u8.extent Γ = ⟨1, 1⟩ := by
    rw [Ty.extent, Ty.extent]
    cases Γ.count <;> exact ⟨rfl, rfl⟩
  have hparts : v.fields.map (fun f => f.type.extent Γ) =
      [⟨2 ^ 63 - 8, 8⟩, ⟨2 ^ 63 - 8, 8⟩, ⟨8, 8⟩, ⟨1, 1⟩] := by
    have hextents := congrArg (List.map fun t => t.extent Γ) htypes
    rw [List.map_map] at hextents
    refine hextents.trans ?_
    rw [List.map_cons, List.map_cons, List.map_cons, List.map_singleton, hinner, hwords.1, hwords.2]
  rw [hΓ.extent_struct hv, hparts]
  rfl

/-- **A struct of 2^64 bytes is laid out with one less**, which is not even a multiple of its
alignment. Its last field is over at 2^64 - 7, and what is rounded up to the size runs over. -/
theorem sizes_exact_not_brim : ∃ u, lowerUnit .initial "brim" [] (ladderUnit brim) = .ok u ∧
    ∃ d ∈ u.module.structs, d.name = "v" ∧ d.layout.size = 0xffffffffffffffff ∧ d.layout.align = 8 ∧
      ((Ty.struct ⟨u.module.id, "v"⟩).extent (Library.initial.push u.module).layouts).size =
      2 ^ 64 ∧
      ¬d.layout.IsExact (Library.initial.push u.module).layouts ⟨u.module.id, "v"⟩ := by
  obtain ⟨u, hu, hcheck⟩ := exists_lowered "brim" (ladderUnit brim) (fun u =>
    let t : Ty := .struct ⟨u.module.id, "t"⟩
    (u.module.structs.any fun d => d.name = "v" && d.layout.size = 0xffffffffffffffff &&
      d.layout.align = 8 &&
      d.layout.fields.map (·.type) = [t, t, .i64, .u8]) &&
    u.module.structs.any fun d => d.name = "t" && d.layout.size = 0x7ffffffffffffff8 &&
      d.layout.align = 8 &&
      d.layout.rounds (Library.initial.push u.module).layouts) (by decide +kernel)
  obtain ⟨hv, ht⟩ := Bool.and_eq_true_iff.1 hcheck
  obtain ⟨d, hd, hv⟩ := List.any_eq_true.1 hv
  obtain ⟨inner, hinner, ht⟩ := List.any_eq_true.1 ht
  simp only [Bool.and_eq_true, decide_eq_true_eq] at hv ht
  obtain ⟨⟨⟨hname, hsize⟩, halign⟩, htypes⟩ := hv
  obtain ⟨⟨⟨hinnerName, hinnerSize⟩, hinnerAlign⟩, hrounds⟩ := ht
  obtain ⟨w, hw, hlibrary⟩ :
    ∃ w : Workspace, w.Used ∧ w.library = .initial := ⟨_, .initial 0 (.empty ""), rfl⟩
  rw [← hlibrary] at hu hrounds ⊢
  have hdeps : ∀ d ∈ ([] : List Module), w.library.find? d.id = some d := fun _ hd => by cases hd
  have hregular := regular_of_lowerUnit hdeps hw.linked.grounded hw.regular hu
  obtain ⟨-, -, hgrounded⟩ := hw.linked.push hdeps hu
  have hfound := hname ▸ find?_layouts_of_lowerUnit hdeps hu hd
  have hextent := Layouts.size_extent_brim hgrounded hregular
    (hinnerName ▸ find?_layouts_of_lowerUnit hdeps hu hinner) hinnerSize hinnerAlign
    hrounds hfound htypes
  refine ⟨u, hu, d, hd, hname, hsize, halign, hextent, fun h => ?_⟩
  have hword := (Layout.isExact_iff hgrounded hregular hfound).1 h
  rw [hextent] at hword
  exact Nat.lt_irrefl _ hword

end Kiln
