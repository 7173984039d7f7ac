import Kiln.Proofs.Lowering.Inversion
import Kiln.Proofs.Memory.Encoding
/-!
# Sequences as bytes

A sequence is its items one after the other, each in as many bytes as their type takes
(`Value.ofItems_eq`). So the bytes of an item are found by its place (`slice_flatten`), and spell
the item as its type stores it (`Value.decode_item`).
-/

namespace Kiln

variable {parts : List (List UInt8)} {size : Nat}

/-! ## Parts of one size -/

theorem length_flatten_of_size (h : ∀ part ∈ parts, part.length = size) :
    parts.flatten.length = parts.length * size := by
  rw [List.length_flatten, List.map_congr_left h, List.map_const', List.sum_replicate_nat]

theorem slice_append_right (bytes more : List UInt8) (start size : Nat) :
    slice (bytes ++ more) (bytes.length + start) size = slice more start size := by
  rw [slice, slice, List.drop_append, List.drop_eq_nil_of_le (Nat.le_add_right _ _),
    List.nil_append, Nat.add_sub_cancel_left]

theorem slice_append_left {bytes more : List UInt8} (h : bytes.length = size) :
    slice (bytes ++ more) 0 size = bytes := by
  rw [slice, List.drop_zero, List.take_append_of_le_length (Nat.le_of_eq h.symm),
    List.take_of_length_le (Nat.le_of_eq h)]

/-- **Each part is where its place says.** -/
theorem slice_flatten : ∀ {parts : List (List UInt8)}, (∀ part ∈ parts, part.length = size) →
    ∀ {i : Nat} {part : List UInt8}, parts[i]? = some part →
      slice parts.flatten (i * size) size = part
  | [], _, _, _, hpart => by cases hpart
  | first :: parts, h, i, part, hpart => by
    have hfirst := h first List.mem_cons_self
    rw [List.flatten_cons]
    rcases i with _ | i
    · cases hpart
      rw [Nat.zero_mul, slice_append_left hfirst]
    · have hplace :
          (i + 1) * size = first.length + i * size := by rw [Nat.succ_mul, hfirst, Nat.add_comm]
      rw [hplace, slice_append_right]
      exact slice_flatten (fun part hmem => h part (List.mem_cons_of_mem _ hmem)) hpart

namespace Value

variable {Γ : Layouts} {t : Ty} {items : List Value} {v : Value}

/-- **A sequence is its items, each spelled as a value of their type.** -/
theorem ofItems_eq (h : ofItems Γ t items = .ok v) :
    ∃ parts, List.Forall₂ (fun item part => encode Γ item t = .ok part) items parts ∧
      v = .seq t (.ofNat items.length) parts.flatten := by
  rw [ofItems] at h
  split at h
  · obtain ⟨parts, hparts, h⟩ := ok_of_bind h
    cases h
    exact ⟨parts, forall₂_of_mapM hparts, rfl⟩
  · cases h

section Fits

variable (hfits : t.Fits Γ Γ.count) (hitems : ∀ item ∈ items, Conforms Γ item t)

include hfits hitems

theorem length_of_encode {parts : List (List UInt8)}
    (h : List.Forall₂ (fun item part => encode Γ item t = .ok part) items parts) :
    ∀ part ∈ parts, part.length = (t.size Γ).toNat := by
  intro part hpart
  obtain ⟨item, hitem, hencode⟩ := exists_of_forall₂ h hpart
  obtain ⟨bytes, hbytes, hlength, -⟩ := (hitems item hitem).encode hfits
  cases hencode.symm.trans hbytes
  exact hlength

/-- A sequence takes as many bytes as its items do. -/
theorem length_bytes {n : UInt64} {bytes : List UInt8}
    (h : ofItems Γ t items = .ok (.seq t n bytes)) :
    n = .ofNat items.length ∧ bytes.length = items.length * (t.size Γ).toNat := by
  obtain ⟨parts, hparts, heq⟩ := ofItems_eq h
  cases heq
  refine ⟨rfl, ?_⟩
  rw [length_flatten_of_size (length_of_encode hfits hitems hparts), hparts.length_eq]

/-- **The bytes of an item spell the item**, as its type stores it. -/
theorem decode_item {n : UInt64} {bytes : List UInt8} (h : ofItems Γ t items = .ok (.seq t n bytes))
    {i : Nat} {item : Value} (hitem : items[i]? = some item) :
    encode Γ item t = .ok (slice bytes (i * (t.size Γ).toNat) (t.size Γ).toNat) ∧
      decode Γ t (slice bytes (i * (t.size Γ).toNat) (t.size Γ).toNat) = .ok (stored Γ item t) := by
  obtain ⟨parts, hparts, heq⟩ := ofItems_eq h
  cases heq
  obtain ⟨part, hpart, hencode⟩ := getElem?_of_forall₂ hparts hitem
  rw [slice_flatten (length_of_encode hfits hitems hparts) hpart]
  obtain ⟨part', hencode', -, hdecode⟩ := (hitems item (List.mem_of_getElem? hitem)).encode hfits
  cases hencode.symm.trans hencode'
  exact ⟨hencode, hdecode⟩

end Fits

end Value

end Kiln
