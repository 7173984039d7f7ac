import Kiln.Memory.Bytes
import Mathlib.Data.List.Basic
/-!
# Fields one behind the other

A struct that is laid out has its fields one behind the other and inside of it
(`Layout.ofFields?_packed`): no sum leaves what 64 bits can hold, and what is rounded up is not
below what it was, also where the result is cut off. `Ty.Fits` says of a type that this holds of
it and of all structs inside of it, so many levels deep, and that a buffer has room for a value.
-/

namespace Kiln

variable {Γ : Layouts}

/-- Every struct that has a layout in the one has the same in the other. -/
def Layouts.Within (Γ Δ : Layouts) : Prop := ∀ ref l, Γ.find? ref = some l → Δ.find? ref = some l

namespace Layout

/-- Fields one behind the other: none starts before `start`, and the last is over at `stop`. -/
def Packed (Γ : Layouts) : Nat → List Field → Nat → Prop
  | start, [], stop => start ≤ stop
  | start, f :: fs, stop =>
    start ≤ f.offset.toNat ∧ Packed Γ (f.offset.toNat + (f.type.size Γ).toNat) fs stop

namespace Packed

variable {f : Field} {stop later : Nat}

theorem le : ∀ {fs : List Field} {start : Nat}, Packed Γ start fs stop → start ≤ stop
  | [], _, h => h
  | _ :: _, _, ⟨hstart, h⟩ => by
    have hrest := le h
    omega

theorem mono : ∀ {fs : List Field} {start : Nat}, Packed Γ start fs stop → stop ≤ later →
    Packed Γ start fs later
  | [], _, h, hle => Nat.le_trans h hle
  | _ :: _, _, ⟨hstart, h⟩, hle => ⟨hstart, mono h hle⟩

/-- A field more behind the others. -/
theorem concat : ∀ {fs : List Field} {start : Nat}, Packed Γ start fs stop →
    stop ≤ f.offset.toNat → Packed Γ start (fs ++ [f]) (f.offset.toNat + (f.type.size Γ).toNat)
  | [], _, h, hle => ⟨Nat.le_trans h hle, Nat.le_refl _⟩
  | _ :: _, _, ⟨hstart, h⟩, hle => ⟨hstart, concat h hle⟩

/-- Each field lies between the start and the stop. -/
theorem of_mem : ∀ {fs : List Field} {start : Nat}, Packed Γ start fs stop → f ∈ fs →
    start ≤ f.offset.toNat ∧ f.offset.toNat + (f.type.size Γ).toNat ≤ stop
  | _ :: _, _, ⟨hstart, h⟩, hf => by
    rcases List.mem_cons.1 hf with rfl | hf
    · exact ⟨hstart, h.le⟩
    · have hrest := of_mem h hf
      exact ⟨by omega, hrest.2⟩

end Packed

end Layout

namespace Ty

/-- Memory can hold values of the type, and so can a buffer: no struct in it lies more than `n`
levels deep, and the fields of each are one behind the other and inside of it. -/
def Fits (Γ : Layouts) : Nat → Ty → Prop
  | _, .str | _, .seq _ => False
  | 0, .struct _ => False
  | n + 1, .struct ref => ∃ l, Γ.find? ref = some l ∧ Layout.Packed Γ 0 l.fields l.size.toNat ∧
      (l.align = 1 ∨ l.align = 8) ∧ l.size.toNat < bufferLimit ∧ ∀ f ∈ l.fields, Fits Γ n f.type
  | _, _ => True

variable {t : Ty}

/-- A struct is as large as its layout says, -/
theorem size_struct {ref : StructRef} {l : Layout} (hl : Γ.find? ref = some l) :
    (Ty.struct ref).size Γ = l.size := by
  rw [size, hl]
  rfl

/-- and as aligned. -/
theorem align_struct {ref : StructRef} {l : Layout} (hl : Γ.find? ref = some l) :
    (Ty.struct ref).align Γ = l.align := by
  rw [align, hl]
  rfl

/-- What is no struct takes a word at most. -/
theorem size_le_eight (ht : ∀ ref, t ≠ .struct ref) : (t.size Γ).toNat ≤ 8 := by
  cases t with
  | struct ref => exact absurd rfl (ht ref)
  | unit | str | seq _ => exact Nat.zero_le 8
  | bool | u8 => exact (by decide : (1 : UInt64).toNat ≤ 8)
  | i64 | u64 | ptr _ => exact Nat.le_refl 8

/-- It starts anywhere, or at a word. -/
theorem align_of_ne_struct (ht : ∀ ref, t ≠ .struct ref) : t.align Γ = 1 ∨ t.align Γ = 8 := by
  cases t with
  | struct ref => exact absurd rfl (ht ref)
  | unit | str | seq _ | bool | u8 => exact .inl rfl
  | i64 | u64 | ptr _ => exact .inr rfl

theorem Fits.mono : ∀ {n k : Nat} {t : Ty}, t.Fits Γ n → n ≤ k → t.Fits Γ k
  | 0, k, t, h, _ => by
    cases t with
    | struct ref => exact h.elim
    | str => exact h.elim
    | seq elem => exact h.elim
    | unit | bool | u8 | i64 | u64 | ptr _ => cases k <;> trivial
  | n + 1, k + 1, t, h, hle => by
    cases t with
    | struct ref =>
      obtain ⟨l, hl, hpacked, halign, hsize, hfields⟩ := h
      exact ⟨l, hl, hpacked, halign, hsize,
        fun f hf => (hfields f hf).mono (Nat.le_of_succ_le_succ hle)⟩
    | str => exact h.elim
    | seq elem => exact h.elim
    | unit | bool | u8 | i64 | u64 | ptr _ => trivial

/-- Nothing that memory can hold is a text or a sequence. -/
theorem Fits.isStorable {n : Nat} (h : t.Fits Γ n) : t.isStorable = true := by
  cases t with
  | str | seq elem => cases n <;> exact h.elim
  | unit | bool | u8 | i64 | u64 | ptr _ | struct _ => rfl

/-- What is known of a struct that memory can hold. -/
theorem Fits.struct {n : Nat} {ref : StructRef} (h : (Ty.struct ref).Fits Γ n) :
    ∃ l k, Γ.find? ref = some l ∧ n = k + 1 ∧ Layout.Packed Γ 0 l.fields l.size.toNat ∧
      ∀ f ∈ l.fields, f.type.Fits Γ k := by
  cases n with
  | zero => exact h.elim
  | succ k =>
    obtain ⟨l, hl, hpacked, -, -, hfields⟩ := h
    exact ⟨l, k, hl, rfl, hpacked, hfields⟩

/-- Alignments are one or eight. -/
theorem Fits.align {n : Nat} (h : t.Fits Γ n) : t.align Γ = 1 ∨ t.align Γ = 8 := by
  cases t with
  | struct ref =>
    cases n with
    | zero => exact h.elim
    | succ n =>
      obtain ⟨l, hl, -, halign, -, -⟩ := h
      rwa [align_struct hl]
  | _ => exact align_of_ne_struct fun ref href => by cases href

/-- A buffer has room for what fits memory. -/
theorem Fits.size_lt {n : Nat} (h : t.Fits Γ n) : (t.size Γ).toNat < bufferLimit := by
  cases t with
  | struct ref =>
    cases n with
    | zero => exact h.elim
    | succ n =>
      obtain ⟨l, hl, -, -, hsize, -⟩ := h
      rwa [size_struct hl]
  | _ => exact Nat.lt_of_le_of_lt (size_le_eight fun ref href => by cases href) (by decide)

/-- What fits memory is as large when more structs have a layout. -/
theorem Fits.size_eq {Δ : Layouts} {n : Nat} (hin : Γ.Within Δ) (h : t.Fits Γ n) :
    t.size Δ = t.size Γ := by
  cases t with
  | struct ref =>
    obtain ⟨l, k, hl, -, -, -⟩ := h.struct
    rw [size_struct hl, size_struct (hin ref l hl)]
  | unit | bool | u8 | i64 | u64 | str | ptr _ | seq _ => rfl

end Ty

/-! ## Laying out -/

/-- Rounding up goes up by less than eight, also where the result is cut off. -/
theorem alignUp_bounds {v a : UInt64} (ha : a = 1 ∨ a = 8) :
    v.toNat ≤ (alignUp v a).toNat ∧ (alignUp v a).toNat ≤ v.toNat + 7 := by
  have hv := v.toNat_lt_size
  have hsize : UInt64.size = 2 ^ 64 := rfl
  have hcut : (0xffffffffffffffff : UInt64).toNat = UInt64.size - 1 := rfl
  rw [alignUp, alignUp?]
  rcases ha with rfl | rfl
  · rw [show max (1 : UInt64).toNat 1 = 1 from rfl, if_pos (by omega), Option.getD_some,
      UInt64.toNat_ofNat_of_lt' (by omega)]
    omega
  · rw [show max (8 : UInt64).toNat 1 = 8 from rfl]
    split
    · rename_i hword
      rw [Option.getD_some, UInt64.toNat_ofNat_of_lt' hword]
      omega
    · rw [Option.getD_none, hcut]
      omega

theorem max_align {a b : UInt64} (ha : a = 1 ∨ a = 8) (hb : b = 1 ∨ b = 8) :
    max a b = 1 ∨ max a b = 8 := by
  rcases ha with rfl | rfl <;> rcases hb with rfl | rfl <;> decide

namespace Layout

namespace Draft

variable {p p' : Draft} {field : String × Ty} {fields : List (String × Ty)}

/-- A field is added if the offset after it is a word, -/
theorem push?_eq (h : (alignUp p.stop (field.2.align Γ)).toNat + (field.2.size Γ).toNat <
    UInt64.size) : p.push? Γ field =
      some ⟨p.fields ++ [⟨field.1, field.2, alignUp p.stop (field.2.align Γ)⟩],
        .ofNat ((alignUp p.stop (field.2.align Γ)).toNat + (field.2.size Γ).toNat),
        max p.align (field.2.align Γ)⟩ :=
  if_pos h

/-- and only then: it lies behind the others, and is over at the new stop. -/
theorem push?_inv (h : p.push? Γ field = some p') :
    p'.fields = p.fields ++ [⟨field.1, field.2, alignUp p.stop (field.2.align Γ)⟩] ∧
      p'.stop.toNat = (alignUp p.stop (field.2.align Γ)).toNat + (field.2.size Γ).toNat ∧
      p'.align = max p.align (field.2.align Γ) := by
  rw [push?] at h
  split at h
  · rename_i hword
    cases h
    exact ⟨rfl, UInt64.toNat_ofNat_of_lt' hword, rfl⟩
  · cases h

/-- Fields are added one after the other. -/
theorem foldlM_cons_inv (h : (field :: fields).foldlM (push? Γ) p = some p') :
    ∃ p₁, p.push? Γ field = some p₁ ∧ fields.foldlM (push? Γ) p₁ = some p' := by
  rw [List.foldlM_cons] at h
  exact Option.bind_eq_some_iff.1 h

/-- Fields are laid out under their names, with their types. -/
theorem named_foldlM : ∀ {fields : List (String × Ty)} {p : Draft},
    fields.foldlM (push? Γ) p = some p' → p'.fields.map (fun f => (f.name, f.type)) =
      p.fields.map (fun f => (f.name, f.type)) ++ fields
  | [], _, h => by
    cases h
    exact (List.append_nil _).symm
  | _ :: _, p, h => by
    obtain ⟨p₁, hpush, hrest⟩ := foldlM_cons_inv h
    rw [named_foldlM hrest, (push?_inv hpush).1, List.map_append, List.append_assoc]
    rfl

/-- What holds of a layout under construction. -/
structure Sound (Γ : Layouts) (p : Draft) : Prop where
  packed : Packed Γ 0 p.fields p.stop.toNat
  align : p.align = 1 ∨ p.align = 8

theorem Sound.push? (h : p.Sound Γ) (hfield : field.2.align Γ = 1 ∨ field.2.align Γ = 8)
    (hpush : p.push? Γ field = some p') : p'.Sound Γ := by
  obtain ⟨hfields, hstop, halign⟩ := push?_inv hpush
  refine ⟨?_, halign ▸ max_align h.align hfield⟩
  rw [hfields, hstop]
  exact h.packed.concat (alignUp_bounds hfield).1

theorem Sound.foldlM : ∀ {fields : List (String × Ty)} {p : Draft}, p.Sound Γ →
    (∀ f ∈ fields, f.2.align Γ = 1 ∨ f.2.align Γ = 8) →
      fields.foldlM (Draft.push? Γ) p = some p' → p'.Sound Γ
  | [], _, hp, _, h => by
    cases h
    exact hp
  | field :: _, _, hp, haligns, h => by
    obtain ⟨p₁, hpush, hrest⟩ := foldlM_cons_inv h
    exact (hp.push? (haligns field List.mem_cons_self) hpush).foldlM
      (fun f hf => haligns f (List.mem_cons_of_mem field hf)) hrest

/-- Fields that are no larger than `bound` can be added where there is room for that many. -/
theorem foldlM_ok {bound : Nat} : ∀ {fields : List (String × Ty)} {p : Draft},
    (∀ f ∈ fields, f.2.align Γ = 1 ∨ f.2.align Γ = 8) →
      (∀ f ∈ fields, (f.2.size Γ).toNat ≤ bound) →
        p.stop.toNat + fields.length * (bound + 7) < UInt64.size →
          ∃ p', fields.foldlM (push? Γ) p = some p' ∧
            p'.stop.toNat ≤ p.stop.toNat + fields.length * (bound + 7)
  | [], p, _, _, _ => ⟨p, rfl, Nat.le_add_right _ _⟩
  | field :: fields, p, haligns, hsizes, hroom => by
    obtain ⟨halign, haligns⟩ := List.forall_mem_cons.1 haligns
    obtain ⟨hsize, hsizes⟩ := List.forall_mem_cons.1 hsizes
    have hup := (alignUp_bounds (v := p.stop) halign).2
    rw [List.length_cons, Nat.succ_mul] at hroom ⊢
    have hpush : p.push? Γ field = some _ := push?_eq (by omega)
    have hstop := (push?_inv hpush).2.1
    obtain ⟨p', hrest, hle⟩ := foldlM_ok haligns hsizes (Nat.lt_of_le_of_lt (m := p.stop.toNat +
      (fields.length * (bound + 7) + (bound + 7))) (by rw [hstop]; omega) hroom)
    refine ⟨p', ?_, by omega⟩
    rw [List.foldlM_cons, hpush]
    exact hrest

end Draft

variable {fields : List (String × Ty)} {l : Layout}

theorem ofFields?_inv (h : ofFields? Γ fields = some l) :
    ∃ p, fields.foldlM (Draft.push? Γ) ⟨[], 0, 1⟩ = some p ∧ l = p.close := by
  obtain ⟨p, hp, rfl⟩ := Option.map_eq_some_iff.1 h
  exact ⟨p, hp, rfl⟩

/-- A layout has the fields that it was made of. -/
theorem named_ofFields? (h : ofFields? Γ fields = some l) :
    l.fields.map (fun f => (f.name, f.type)) = fields := by
  obtain ⟨p, hp, rfl⟩ := ofFields?_inv h
  exact Draft.named_foldlM hp

/-- **Fields that are laid out are one behind the other and inside the struct.** -/
theorem ofFields?_packed (haligns : ∀ f ∈ fields, f.2.align Γ = 1 ∨ f.2.align Γ = 8)
    (h : ofFields? Γ fields = some l) :
    Packed Γ 0 l.fields l.size.toNat ∧ (l.align = 1 ∨ l.align = 8) := by
  obtain ⟨p, hp, rfl⟩ := ofFields?_inv h
  have hempty : (⟨[], 0, 1⟩ : Draft).Sound Γ := ⟨Nat.le_refl 0, .inl rfl⟩
  have hsound := hempty.foldlM haligns hp
  exact ⟨hsound.packed.mono (alignUp_bounds hsound.align).1, hsound.align⟩

/-- Fields that are no larger than `bound` are laid out, if that many of its size are still a
word. -/
theorem ofFields?_ok {bound : Nat} (haligns : ∀ f ∈ fields, f.2.align Γ = 1 ∨ f.2.align Γ = 8)
    (hsizes : ∀ f ∈ fields, (f.2.size Γ).toNat ≤ bound)
    (hroom : fields.length * (bound + 7) < UInt64.size) :
    ∃ l, ofFields? Γ fields = some l ∧ l.size.toNat ≤ fields.length * (bound + 7) + 7 := by
  have hstart : (⟨[], 0, 1⟩ : Draft).stop.toNat = 0 := rfl
  obtain ⟨p, hp, hstop⟩ := Draft.foldlM_ok haligns hsizes (by rwa [hstart, Nat.zero_add])
  have hempty : (⟨[], 0, 1⟩ : Draft).Sound Γ := ⟨Nat.le_refl 0, .inl rfl⟩
  have hup := (alignUp_bounds (v := p.stop) (hempty.foldlM haligns hp).align).2
  rw [hstart, Nat.zero_add] at hstop
  exact ⟨p.close, congrArg (Option.map Draft.close) hp, Nat.le_trans hup (by omega)⟩

end Layout

end Kiln
