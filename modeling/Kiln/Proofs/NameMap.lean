import Kiln.NameMap
import Mathlib.Data.String.Basic
/-!
# What is found in a map

A map that is made by insertions has its entries by increasing name (`NameMap.Sorted`), so that a
name has one entry and that is the one found (`NameMap.Sorted.mem_entries_iff`). Thus what is found
after entries were dropped is what was found before, if it was kept (`NameMap.Sorted.find?_filter`).
-/

namespace Kiln

namespace NameMap

variable {α : Type} {m : NameMap α} {name : String} {value v : α}

/-- The entries are by increasing name. -/
def Sorted (m : NameMap α) : Prop := m.entries.Pairwise (·.1 < ·.1)

/-! ## What is found -/

theorem find?_eq_none_iff : m.find? name = none ↔ ∀ e ∈ m.entries, e.1 ≠ name := by
  rw [find?, List.lookup_eq_none_iff]
  exact forall₂_congr fun e _ => bne_iff_ne.trans ne_comm

theorem contains_eq_false_iff : m.contains name = false ↔ m.find? name = none := by
  rw [contains, Option.isSome_eq_false_iff, Option.isNone_iff_eq_none]

/-- The names of a map are those that it has a value for. -/
theorem mem_names : name ∈ m.names ↔ m.contains name = true := by
  rw [← not_iff_not, Bool.not_eq_true, contains_eq_false_iff, find?_eq_none_iff,
    names, List.mem_map]
  exact ⟨fun h e he heq => h ⟨e, he, heq⟩, fun h ⟨e, he, heq⟩ => h e he heq⟩

/-- **The entries of a sorted map are what it finds.** -/
theorem Sorted.mem_entries_iff (h : m.Sorted) : (name, v) ∈ m.entries ↔ m.find? name = some v := by
  rw [find?, List.lookup_eq_some_iff]
  constructor
  · intro hmem
    obtain ⟨before, after, heq⟩ := List.append_of_mem hmem
    rw [Sorted, heq, List.pairwise_append] at h
    refine ⟨before, after, heq, fun e he => bne_iff_ne.2 ?_⟩
    exact (ne_of_lt (h.2.2 e he _ List.mem_cons_self)).symm
  · rintro ⟨before, after, heq, -⟩
    rw [heq]
    exact List.mem_append_right _ List.mem_cons_self

/-! ## Insertion -/

theorem mem_insertSorted :
    ∀ {es : List (String × α)} {e : String × α}, e ∈ insertSorted name value es →
    e = (name, value) ∨ e ∈ es
  | [], e, h => .inl (List.mem_singleton.1 h)
  | d :: ds, e, h => by
    rw [insertSorted] at h
    split at h
    · exact (List.mem_cons.1 h).imp_right (List.mem_cons_of_mem d)
    · split at h
      · exact List.mem_cons.1 h
      · rcases List.mem_cons.1 h with rfl | h
        · exact .inr List.mem_cons_self
        · exact (mem_insertSorted h).imp_right (List.mem_cons_of_mem d)

theorem pairwise_insertSorted : ∀ {es : List (String × α)}, es.Pairwise (·.1 < ·.1) →
    (insertSorted name value es).Pairwise (·.1 < ·.1)
  | [], _ => List.pairwise_singleton _ _
  | d :: ds, h => by
    obtain ⟨hd, hds⟩ := List.pairwise_cons.1 h
    rw [insertSorted]
    split
    · rename_i heq
      exact List.pairwise_cons.2 ⟨fun e he => heq ▸ hd e he, hds⟩
    · rename_i hne
      split
      · rename_i hlt
        refine List.pairwise_cons.2 ⟨fun e he => ?_, h⟩
        rcases List.mem_cons.1 he with rfl | he
        · exact hlt
        · exact lt_trans hlt (hd e he)
      · rename_i hge
        refine List.pairwise_cons.2 ⟨fun e he => ?_, pairwise_insertSorted hds⟩
        rcases mem_insertSorted he with rfl | he
        · exact lt_of_le_of_ne (not_lt.1 hge) (Ne.symm hne)
        · exact hd e he

theorem sorted_empty : (empty : NameMap α).Sorted := List.Pairwise.nil

theorem Sorted.insert (h : m.Sorted) (name : String) (value : α) : (m.insert name value).Sorted :=
  pairwise_insertSorted h

/-- **A map that is made from a list is sorted.** -/
theorem sorted_ofList (es : List (String × α)) : (ofList es).Sorted := by
  suffices hfold :
      ∀ {m : NameMap α}, m.Sorted → (es.foldl (fun m e => m.insert e.1 e.2) m).Sorted from
    hfold sorted_empty
  induction es with
  | nil => exact id
  | cons e es ih => exact fun hm => ih (hm.insert e.1 e.2)

/-! ## Removal -/

theorem Sorted.filter (h : m.Sorted) (keep : α → Bool) : (m.filter keep).Sorted :=
  List.Pairwise.filter _ h

/-- **What is found among the entries that are kept** is what was found among all, if that is
kept. -/
theorem Sorted.find?_filter (h : m.Sorted) {keep : α → Bool} :
    (m.filter keep).find? name = some v ↔ m.find? name = some v ∧ keep v = true := by
  rw [← (h.filter keep).mem_entries_iff, ← h.mem_entries_iff, NameMap.filter, List.mem_filter]

theorem erase_insertSorted : ∀ {es : List (String × α)}, (∀ e ∈ es, e.1 ≠ name) →
    (insertSorted name v es).filter (fun e => e.1 != name) = es
  | [], _ => by simp [insertSorted]
  | d :: ds, h => by
    have hd : (d.1 != name) = true := bne_iff_ne.2 (h d List.mem_cons_self)
    have hds : ds.filter (fun e => e.1 != name) = ds :=
      List.filter_eq_self.2 fun e he => bne_iff_ne.2 (h e (List.mem_cons_of_mem d he))
    have hrest := erase_insertSorted fun e he => h e (List.mem_cons_of_mem d he)
    rw [insertSorted, if_neg (Ne.symm (h d List.mem_cons_self))]
    split
    · simp [hd, hds]
    · simp [hd, hrest]

/-- **A name that is given a value and loses it again was never there.** -/
theorem erase_insert (h : m.find? name = none) : (m.insert name v).erase name = m := by
  obtain ⟨es⟩ := m
  exact congrArg mk (erase_insertSorted (find?_eq_none_iff.1 h))

end NameMap

end Kiln
