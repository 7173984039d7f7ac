import Kiln.Proofs.Tree.Printing
import Mathlib.Data.List.Forall2
/-!
# Trees that match

Two trees match when they are the same but for their spans, and the spans of parts that stand at the
same place are in some relation. By the relation this says more or less: that two trees are alike
(`matches_of_alike`) or, of a tree and itself, where all of its parts are (`matches_self`).
-/

namespace Kiln

namespace Tree

/-- The trees differ in spans alone, and those of corresponding parts are related. -/
inductive Matches (P : Span → Span → Prop) : Tree → Tree → Prop
  | leaf {a : Atom} {s s' : Span} : P s s' → Matches P (leaf a s) (leaf a s')
  | node {items items' : List Tree} {s s' : Span} : P s s' →
      List.Forall₂ (Matches P) items items' → Matches P (node items s) (node items' s')

variable {P : Span → Span → Prop} {t t' : Tree}

namespace Matches

theorem span (h : t.Matches P t') : P t.span t'.span := by
  cases h with
  | leaf h => exact h
  | node h _ => exact h

theorem symbol? (h : t.Matches P t') : t'.symbol? = t.symbol? := by
  cases h with
  | @leaf a _ _ _ => cases a <;> rfl
  | node _ _ => rfl

theorem head? (h : t.Matches P t') : t'.head? = t.head? := by
  cases h with
  | leaf _ => rfl
  | node _ hitems =>
    cases hitems with
    | nil => rfl
    | cons hhead _ => exact hhead.symbol?

/-- The items of trees that match. -/
theorem items? (h : t.Matches P t') : Option.Rel (List.Forall₂ (Matches P)) t.items? t'.items? := by
  cases h with
  | leaf _ => exact .none
  | node _ hitems => exact .some hitems

/-- The rest of forms that match. -/
theorem form? (h : t.Matches P t') (word : String) :
    Option.Rel (List.Forall₂ (Matches P)) (t.form? word) (t'.form? word) := by
  cases h with
  | leaf _ => exact .none
  | node _ hitems =>
    cases hitems with
    | nil => exact .none
    | @cons head head' rest rest' hhead hrest =>
      rw [Tree.form?, Tree.form?, hhead.symbol?]
      split
      · exact .some hrest
      · exact .none

end Matches

/-- Trees match the other way round, with their spans related the other way round. -/
theorem Matches.flip {t : Tree} : ∀ {t' : Tree}, t.Matches P t' → t'.Matches (flip P) t := by
  induction t using inductItems with
  | leaf a s =>
    rintro _ (h | _)
    exact .leaf h
  | node items s ih =>
    rintro _ (_ | ⟨h, hitems⟩)
    refine .node h (List.Forall₂.flip ?_)
    exact List.forall₂_iff_get.2
      ⟨hitems.length_eq, fun i hi hi' => ih _ (List.get_mem _ _) (hitems.get hi hi')⟩

/-- A tree matches itself by what holds of its parts. -/
theorem matches_self :
    ∀ {t : Tree}, (∀ u : Tree, u.PartOf t → P u.span u.span) → t.Matches P t := by
  intro t
  induction t using inductItems with
  | leaf a s => exact fun h => .leaf (h _ (.whole _))
  | node items s ih =>
    intro h
    refine .node (h _ (.whole _))
      (List.forall₂_same.2 fun t ht => ih t ht fun u hu => h u (.item ht hu))

mutual

/-- **Trees that are alike match**, however their spans are related. -/
theorem matches_of_alike (hP : ∀ s s', P s s') : ∀ {t t' : Tree}, t.alike t' = true → t.Matches P t'
  | leaf a s, leaf b s', h => by
    rw [alike] at h
    rw [of_decide_eq_true h]
    exact .leaf (hP s s')
  | node xs s, node ys s', h => by
    rw [alike] at h
    exact .node (hP s s') (matchesAll_of_alikeAll hP h)
  | leaf _ _, node _ _, h => by cases h
  | node _ _, leaf _ _, h => by cases h

theorem matchesAll_of_alikeAll (hP : ∀ s s', P s s') :
    ∀ {ts ts' : List Tree}, alikeAll ts ts' = true →
    List.Forall₂ (Matches P) ts ts'
  | [], [], _ => .nil
  | t :: ts, u :: us, h => by
    rw [alikeAll, Bool.and_eq_true] at h
    exact .cons (matches_of_alike hP h.1) (matchesAll_of_alikeAll hP h.2)
  | [], _ :: _, h => by cases h
  | _ :: _, [], h => by cases h

end

end Tree

end Kiln
