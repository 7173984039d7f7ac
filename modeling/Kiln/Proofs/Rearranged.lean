import Kiln.Proofs.Lowering.Inversion
import Mathlib.Data.List.Nodup
import Mathlib.Data.List.Perm.Basic
/-!
# Lists in another order

One list is a rearrangement of another when it has, in some order, one related element for each of
the other's. Whatever is made of the elements one by one is rearranged with them
(`Rearranged.carry`).
-/

namespace Kiln

variable {α β γ δ : Type} {Q : α → β → Prop}

/-- What is related to the elements of one list is related through them. -/
theorem forall₂_through {S : α → γ → Prop} {as : List α} {bs : List β} {cs : List γ}
    (hbs : List.Forall₂ Q as bs) : List.Forall₂ S as cs →
      List.Forall₂ (fun b c => ∃ a ∈ as, Q a b ∧ S a c) bs cs := by
  induction hbs generalizing cs with
  | nil =>
    rintro ⟨⟩
    exact .nil
  | cons hab _ ih =>
    rintro (_ | ⟨hac, hcs⟩)
    refine .cons ⟨_, List.mem_cons_self, hab, hac⟩ ((ih hcs).imp ?_)
    exact fun _ _ ⟨a, ha, hrest⟩ => ⟨a, List.mem_cons_of_mem _ ha, hrest⟩

/-- A choice among related elements that does not tell them apart. -/
theorem forall₂_filter {p : α → Bool} {q : β → Bool} {as : List α} {bs : List β}
    (h : List.Forall₂ Q as bs) (hpq : ∀ a b, Q a b → q b = p a) :
    List.Forall₂ Q (as.filter p) (bs.filter q) := by
  induction h with
  | nil => exact .nil
  | cons hab _ ih =>
    rw [List.filter_cons, List.filter_cons, hpq _ _ hab]
    split
    · exact .cons hab ih
    · exact ih

/-! ## Elements known by their keys -/

section Keys

variable {key : α → String} {as : List α}

/-- What has a key that is there is found under it. -/
theorem exists_find? {name : String} (h : name ∈ as.map key) :
    ∃ a, as.find? (fun a => key a = name) = some a ∧ a ∈ as ∧ key a = name := by
  obtain ⟨b, hb, hname⟩ := List.mem_map.1 h
  obtain ⟨a, ha⟩ := Option.isSome_iff_exists.1
    (List.find?_isSome.2 ⟨b, hb, decide_eq_true hname⟩ : (as.find? (fun a => key a = name)).isSome =
      true)
  exact ⟨a, ha, List.mem_of_find?_eq_some ha, of_decide_eq_true (List.find?_some ha :)⟩

/-- An element whose key none else has is found under it. -/
theorem find?_of_nodup (h : (as.map key).Nodup) {a : α} (ha : a ∈ as) :
    as.find? (fun b => key b = key a) = some a := by
  obtain ⟨b, hfound, hb, hkey⟩ := exists_find? (List.mem_map.2 ⟨a, ha, rfl⟩ : key a ∈ as.map key)
  rw [hfound, List.inj_on_of_nodup_map h hb ha hkey]

/-- In every order of elements whose keys are their own, the same are found. -/
theorem find?_perm {bs : List α} (h : (as.map key).Nodup) (hperm : as.Perm bs) (name : String) :
    bs.find? (fun a => key a = name) = as.find? fun a => key a = name := by
  by_cases hname : name ∈ as.map key
  · obtain ⟨a, hfound, ha, rfl⟩ := exists_find? hname
    rw [hfound, find?_of_nodup ((hperm.map key).nodup_iff.1 h) (hperm.subset ha)]
  · have hnone : ∀ a ∈ as, key a ≠ name := fun a ha heq => hname (heq ▸ List.mem_map_of_mem ha)
    rw [List.find?_eq_none.2 fun a ha => by simpa using hnone a (hperm.symm.subset ha),
      List.find?_eq_none.2 fun a ha => by simpa using hnone a ha]

end Keys

/-! ## Lists in another order -/

/-- In some order, the second list has one related element for each of the first. -/
def Rearranged (Q : α → β → Prop) (as : List α) (bs : List β) : Prop :=
  ∃ mid, as.Perm mid ∧ List.Forall₂ Q mid bs

namespace Rearranged

variable {as : List α} {bs : List β}

theorem flip (h : Rearranged Q as bs) : Rearranged (flip Q) bs as := by
  obtain ⟨mid, hperm, hmid⟩ := h
  obtain ⟨mid', hmid', hperm'⟩ := List.perm_comp_forall₂ hperm hmid
  exact ⟨mid', hperm'.symm, List.Forall₂.flip hmid'⟩

theorem imp {S : α → β → Prop} (hQ : ∀ a b, Q a b → S a b) (h : Rearranged Q as bs) :
    Rearranged S as bs := by
  obtain ⟨mid, hperm, hmid⟩ := h
  exact ⟨mid, hperm, hmid.imp hQ⟩

theorem exists_right (h : Rearranged Q as bs) {a : α} (ha : a ∈ as) : ∃ b ∈ bs, Q a b := by
  obtain ⟨mid, hperm, hmid⟩ := h
  exact exists_of_forall₂ (R := fun b a => Q a b) (List.Forall₂.flip hmid) (hperm.subset ha)

theorem exists_left (h : Rearranged Q as bs) {b : β} (hb : b ∈ bs) :
    ∃ a ∈ as, Q a b := h.flip.exists_right hb

/-- What related elements have in common comes in another order. -/
theorem map_perm (h : Rearranged Q as bs) {f : α → γ} {g : β → γ} (hfg : ∀ a b, Q a b → g b = f a) :
    (as.map f).Perm (bs.map g) := by
  obtain ⟨mid, hperm, hmid⟩ := h
  have hsame : List.Forall₂ Eq (mid.map f) (bs.map g) :=
    List.forall₂_map_left_iff.2 (List.forall₂_map_right_iff.2
      (hmid.imp fun a b hab => (hfg a b hab).symm))
  rw [List.forall₂_eq_eq_eq] at hsame
  exact hsame ▸ hperm.map f

/-- A choice among the elements is rearranged with them. -/
theorem filter (h : Rearranged Q as bs) {p : α → Bool} {q : β → Bool}
    (hpq : ∀ a b, Q a b → q b = p a) :
    Rearranged Q (as.filter p) (bs.filter q) := by
  obtain ⟨mid, hperm, hmid⟩ := h
  exact ⟨mid.filter p, hperm.filter p, forall₂_filter hmid hpq⟩

/-- **What is made of the elements one by one is rearranged with them.** -/
theorem carry {S : α → γ → Prop} {S' : β → δ → Prop} {T : γ → δ → Prop} {cs : List γ}
    (h : Rearranged Q as bs) (hcs : List.Forall₂ S as cs)
    (hstep : ∀ a b c, Q a b → S a c → ∃ d, S' b d ∧ T c d) :
    ∃ ds, List.Forall₂ S' bs ds ∧ Rearranged T cs ds := by
  obtain ⟨mid, hperm, hmid⟩ := h
  obtain ⟨mid', hmid', hperm'⟩ := List.perm_comp_forall₂ hperm.symm hcs
  have hpairs :
      ∀ {bs : List β} {cs : List γ}, List.Forall₂ (fun b c => ∃ a ∈ mid, Q a b ∧ S a c) bs cs →
      ∃ ds, List.Forall₂ S' bs ds ∧ List.Forall₂ T cs ds := by
    intro bs cs hbc
    induction hbc with
    | nil => exact ⟨[], .nil, .nil⟩
    | cons hbc _ ih =>
      obtain ⟨a, -, hQ, hS⟩ := hbc
      obtain ⟨d, hd, hT⟩ := hstep a _ _ hQ hS
      obtain ⟨ds, hds, hcs⟩ := ih
      exact ⟨d :: ds, .cons hd hds, .cons hT hcs⟩
  obtain ⟨ds, hds, hT⟩ := hpairs (forall₂_through hmid hmid')
  exact ⟨ds, hds, mid', hperm'.symm, hT⟩

end Rearranged

end Kiln
