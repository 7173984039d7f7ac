import Kiln.Proofs.Tree.Acceptance
import Kiln.Tree.Printer
/-!
# What is printed is read again

A tree that was read is printed as a text that is read as a like tree, wherever the printer breaks
its lines (`Grammar.readForms_render`). The one thing that is printed and cannot be read is a
character written as its code point (`Quoted.IsCoded`): a text that has one in a string is refused.
Both are shown on the grammar: what is printed of a legible tree derives it
(`Grammar.form_renderAt`), and since a text comes apart in one way at most, what is printed of
another tree derives nothing (`Grammar.not_form_renderAt`).
-/

namespace Kiln

namespace Quoted

/-- The character is written as its code point in braces. -/
def IsCoded (c : Char) : Prop := escape c = ['\\', 'u', '\x7b'] ++ hexDigits c.toNat ++ ['\x7d']

instance (c : Char) : Decidable (IsCoded c) := inferInstanceAs (Decidable (_ = _))

/-- A character is written with a letter of its own, as itself or as its code point. -/
theorem escape_cases (c : Char) : (∃ d, (d, c) ∈ Grammar.escapes ∧ escape c = ['\\', d]) ∨
    (c ≠ '"' ∧ c ≠ '\\' ∧ escape c = [c]) ∨ IsCoded c := by
  by_cases hletter : c ∈ Grammar.escapes.map (·.2)
  · left
    obtain ⟨⟨d, e⟩, hd, rfl⟩ := List.mem_map.1 hletter
    refine ⟨d, hd, ?_⟩
    -- the printer's letters are those of the grammar, one by one
    simp only [Grammar.escapes, List.mem_cons, Prod.mk.injEq, List.not_mem_nil, or_false] at hd
    rcases hd with ⟨rfl, rfl⟩ | ⟨rfl, rfl⟩ | ⟨rfl, rfl⟩ | ⟨rfl, rfl⟩ | ⟨rfl, rfl⟩ | ⟨rfl, rfl⟩
      <;> rfl
  · right
    have hne : ∀ d ∈ Grammar.escapes.map (·.2), c ≠ d := fun d hd heq => hletter (heq ▸ hd)
    by_cases hseen : isUnseen c = true
    · right
      unfold IsCoded escape
      split
      all_goals first | exact absurd rfl (hne _ (by decide)) | exact if_pos hseen
    · exact .inl ⟨hne '"' (by decide), hne '\\' (by decide),
        escape_eq_self hletter (Bool.eq_false_iff.2 hseen)⟩

end Quoted

namespace Tree

mutual

/-- The strings in a tree, from left to right. -/
def texts : Tree → List String
  | leaf (.str text) _ => [text]
  | leaf _ _ => []
  | node items _ => textsAll items

/-- The strings in several trees, from left to right. -/
def textsAll : List Tree → List String
  | [] => []
  | t :: ts => t.texts ++ textsAll ts

end

/-- A tree at any depth of another, or that tree itself. -/
inductive PartOf : Tree → Tree → Prop
  | whole (t : Tree) : PartOf t t
  | item {t u : Tree} {items : List Tree} {s : Span} (hu : u ∈ items) (h : PartOf t u) :
      PartOf t (node items s)

/-- No string of the tree has a character that is written as its code point. -/
def Legible (t : Tree) : Prop := ∀ text ∈ t.texts, ∀ c ∈ text.toList, ¬Quoted.IsCoded c

theorem textsAll_eq_flatMap (ts : List Tree) : textsAll ts = ts.flatMap texts := by
  induction ts with
  | nil => rfl
  | cons t ts ih => rw [textsAll, ih, List.flatMap_cons]

theorem symbolsAll_eq_flatMap (ts : List Tree) : symbolsAll ts = ts.flatMap symbols := by
  induction ts with
  | nil => rfl
  | cons t ts ih => rw [symbolsAll, ih, List.flatMap_cons]

/-- A list is legible if its items are. -/
theorem legible_node {items : List Tree} {s : Span} :
    (node items s).Legible ↔ ∀ t ∈ items, t.Legible := by
  simp only [Legible, texts, textsAll_eq_flatMap, List.mem_flatMap]
  exact ⟨fun h t ht text htext => h text ⟨t, ht, htext⟩,
    fun h text ⟨t, ht, htext⟩ => h t ht text htext⟩

theorem PartOf.symbols_subset {t u : Tree} (h : t.PartOf u) : t.symbols ⊆ u.symbols := by
  induction h with
  | whole => exact List.Subset.refl _
  | item hu _ ih =>
    rw [symbols, symbolsAll_eq_flatMap]
    exact fun p hp => List.mem_flatMap.2 ⟨_, hu, ih hp⟩

end Tree

namespace Grammar

/-! ## Strings -/

/-- What is written of a text without coded characters comes apart as that text. -/
theorem quoted_encode {cs : List Char} (rest : List Char) (h : ∀ c ∈ cs, ¬Kiln.Quoted.IsCoded c) :
    Nonempty (Quoted (cs.flatMap Kiln.Quoted.escape ++ '"' :: rest) cs rest) := by
  induction cs with
  | nil => exact ⟨.close rest⟩
  | cons c cs ih =>
    obtain ⟨q⟩ := ih fun d hd => h d (List.mem_cons_of_mem c hd)
    rw [List.flatMap_cons, List.append_assoc]
    rcases Kiln.Quoted.escape_cases c with ⟨d, hd, hescape⟩ | ⟨hquote, hslash, hescape⟩ | hcoded
    · rw [hescape]
      exact ⟨.escape d c hd q⟩
    · rw [hescape]
      exact ⟨.plain c hquote hslash q⟩
    · exact absurd hcoded (h c List.mem_cons_self)

/-- No escape goes by the letter that code points are written with. -/
theorem not_quoted_coded {text meant rest : List Char} :
    IsEmpty (Quoted ('\\' :: 'u' :: text) meant rest) := by
  refine ⟨fun q => ?_⟩
  cases q with
  | escape c d hescape q =>
    have hletters : 'u' ∉ escapes.map (·.1) := by decide
    exact hletters (List.mem_map_of_mem (f := (·.1)) hescape)
  | plain c hquote hslash q => exact hslash rfl

/-- What is written of a text with a coded character is no string. -/
theorem not_quoted_encode {cs more : List Char} (h : ∃ c ∈ cs, Kiln.Quoted.IsCoded c) :
    ∀ {meant rest : List Char},
      IsEmpty (Quoted (cs.flatMap Kiln.Quoted.escape ++ more) meant rest) := by
  induction cs with
  | nil =>
    obtain ⟨c, hc, -⟩ := h
    exact absurd hc List.not_mem_nil
  | cons c cs ih =>
    intro meant rest
    rw [List.flatMap_cons, List.append_assoc]
    by_cases hcoded : Kiln.Quoted.IsCoded c
    · rw [hcoded]
      exact not_quoted_coded
    · obtain ⟨d, hd, hlater⟩ := h
      have hmem : d ∈ cs := (List.mem_cons.1 hd).resolve_left fun heq => hcoded (heq ▸ hlater)
      have hrest := @ih ⟨d, hmem, hlater⟩
      generalize cs.flatMap Kiln.Quoted.escape ++ more = text at hrest ⊢
      refine ⟨fun q => ?_⟩
      -- the first character is read as it was meant, and the others are no string
      rcases Kiln.Quoted.escape_cases c with ⟨e, he, hescape⟩ | ⟨hquote, hslash, hescape⟩ | hcoded'
      · rw [hescape] at q
        cases q with
        | escape _ _ _ q => exact hrest.false q
        | plain _ _ hslash _ => exact hslash rfl
      · rw [hescape] at q
        cases q with
        | close => exact hquote rfl
        | escape => exact hslash rfl
        | plain _ _ _ q => exact hrest.false q
      · exact hcoded hcoded'

/-! ## Words -/

/-- A name that is read as a symbol. -/
def IsWord (name : String) : Prop :=
  name.toList ≠ [] ∧ (∀ c ∈ name.toList, isSymbolChar c = true) ∧ Spells name.toList (.sym name)

/-- Every symbol of the tree is one that can be read. -/
def Worded (t : Tree) : Prop := ∀ p ∈ t.symbols, IsWord p.1

theorem worded_node {items : List Tree} {s : Span} :
    Worded (.node items s) ↔ ∀ t ∈ items, Worded t := by
  simp only [Worded, Tree.symbols, Tree.symbolsAll_eq_flatMap, List.mem_flatMap]
  exact ⟨fun h t ht p hp => h p ⟨t, ht, hp⟩, fun h p ⟨t, ht, hp⟩ => h t ht p hp⟩

variable {size : Nat}

mutual

/-- The symbols of a form are words. -/
theorem Form.worded : ∀ {text rest : List Char} {t : Tree}, Form size text t rest → Worded t
  | _, _, _, .list d => worded_node.2 d.worded
  | _, _, _, .string _ => fun p hp => absurd hp List.not_mem_nil
  | _, _, _, .word word _ hne hword _ hspells => by
    intro p hp
    cases hspells with
    | positive | negative | yes | no => exact absurd hp List.not_mem_nil
    | name hnumber hyes hno =>
      obtain rfl := List.mem_singleton.1 hp
      rw [IsWord, String.toList_ofList]
      exact ⟨hne, hword, .name hnumber hyes hno⟩

theorem Forms.worded : ∀ {text rest : List Char} {ts : List Tree}, Forms size text ts rest →
    ∀ u ∈ ts, Worded u
  | _, _, _, .last _ => fun _ hu => absurd hu List.not_mem_nil
  | _, _, _, .next _ f d => fun u hu => (List.mem_cons.1 hu).elim (· ▸ f.worded) (d.worded u)

end

theorem isSymbolChar_of_isDigit {c : Char} (h : c.isDigit = true) : isSymbolChar c = true := by
  rw [isSymbolChar, Char.isAlphanum, h, Bool.or_true, Bool.true_or]

/-- The digits of a number are digits, and spell it. -/
theorem toDigits_spells (n : Nat) :
    Nat.toDigits 10 n ≠ [] ∧ (∀ d ∈ Nat.toDigits 10 n, d.isDigit = true) ∧
    decimal (Nat.toDigits 10 n) = n := by
  refine ⟨Nat.toDigits_ne_nil,
    fun d hd => Nat.isDigit_of_mem_toDigits (by decide) (by decide) hd, ?_⟩
  rw [← digitsValue_eq]
  exact Nat.ofDigitChars_toDigits (by decide) (by decide)

/-- **An integer is printed as a word that spells it.** -/
theorem spells_render_int (n : Int64) : Atom.render (.int n) ≠ [] ∧
    (∀ c ∈ Atom.render (.int n), isSymbolChar c = true) ∧
    Spells (Atom.render (.int n)) (.int n) := by
  have hrender : Atom.render (.int n) = n.toInt.repr.toList := rfl
  rw [hrender]
  -- a number below zero is written as its distance from zero, which is one more than what its
  -- constructor holds
  rcases hn : n.toInt with k | k
  · obtain ⟨hne, hdigits, hvalue⟩ := toDigits_spells k
    rw [Int.repr, Nat.toList_repr]
    exact ⟨hne, fun c hc => isSymbolChar_of_isDigit (hdigits c hc),
      .positive hne hdigits (by rw [hn, hvalue]; rfl)⟩
  · obtain ⟨hne, hdigits, hvalue⟩ := toDigits_spells (k + 1)
    have hword : (Int.negSucc k).repr.toList = '-' :: Nat.toDigits 10 (k + 1) := by
      rw [Int.repr, String.toList_append, Nat.toList_repr]
      rfl
    rw [hword]
    refine ⟨List.cons_ne_nil _ _, fun c hc => ?_, .negative hne hdigits (by rw [hn, hvalue]; rfl)⟩
    rcases List.mem_cons.1 hc with rfl | hc
    · decide
    · exact isSymbolChar_of_isDigit (hdigits c hc)

/-- A truth value is written as a word that spells it. -/
theorem spells_render_bool (b : Bool) : Atom.render (.bool b) ≠ [] ∧
    (∀ c ∈ Atom.render (.bool b), isSymbolChar c = true) ∧
    Spells (Atom.render (.bool b)) (.bool b) := by
  cases b with
  | true => exact ⟨List.cons_ne_nil _ _, List.all_eq_true.1 rfl, .yes⟩
  | false => exact ⟨List.cons_ne_nil _ _, List.all_eq_true.1 rfl, .no⟩

/-- **A leaf is printed as a form of its own**, if it is no string with coded characters. -/
theorem form_leaf {a : Atom} {s : Span} {rest : List Char} (hworded : Worded (.leaf a s))
    (hlegible : (Tree.leaf a s).Legible) (hends : WordEnds rest) :
    ∃ s', Nonempty (Form size (a.render ++ rest) (.leaf a s') rest) := by
  rcases a with n | b | text | name
  · obtain ⟨hne, hword, hspells⟩ := spells_render_int n
    exact ⟨_, ⟨.word _ rfl hne hword hends hspells⟩⟩
  · obtain ⟨hne, hword, hspells⟩ := spells_render_bool b
    exact ⟨_, ⟨.word _ rfl hne hword hends hspells⟩⟩
  · obtain ⟨q⟩ := quoted_encode rest (hlegible text (List.mem_singleton.2 rfl))
    have hrender : Atom.render (.str text) ++ rest =
        '"' :: (text.toList.flatMap Kiln.Quoted.escape ++ '"' :: rest) := by
      rw [Atom.render, Kiln.Quoted.encode, List.cons_append, List.cons_append, List.append_assoc,
        List.singleton_append]
    have f : Form size _ _ _ := Form.string q
    rw [String.ofList_toList, ← hrender] at f
    exact ⟨_, ⟨f⟩⟩
  · obtain ⟨hne, hword, hspells⟩ := hworded _ (List.mem_singleton.2 rfl)
    exact ⟨_, ⟨.word _ rfl hne hword hends hspells⟩⟩

/-! ## What stands between the items of a list -/

/-- Blanks are skipped. -/
theorem gap_of_blanks {blanks : List Char} (rest : List Char) (h : ∀ c ∈ blanks, isBlank c = true) :
    Nonempty (Gap (blanks ++ rest) rest) := by
  induction blanks with
  | nil => exact ⟨.none rest⟩
  | cons c blanks ih =>
    obtain ⟨g⟩ := ih fun d hd => h d (List.mem_cons_of_mem c hd)
    exact ⟨.blank c (isBlank_iff.1 (h c List.mem_cons_self)) g⟩

/-- **Spaces and line breaks are blanks**, wherever the printer puts them. -/
theorem isBlank_separator (block : Bool) (indent index : Nat) (t : Tree) :
    ∀ c ∈ Tree.separator block indent index t, isBlank c = true := by
  intro c h
  rw [Tree.separator] at h
  split at h
  · exact absurd h List.not_mem_nil
  · split at h
    · rcases List.mem_cons.1 h with rfl | h
      · rfl
      · rw [List.eq_of_mem_replicate h]
        rfl
    · rw [List.mem_singleton.1 h]
      rfl

/-- Behind the first item a separator is not empty. -/
theorem separator_succ_ne_nil (block : Bool) (indent index : Nat) (t : Tree) :
    Tree.separator block indent (index + 1) t ≠ [] := by
  rw [Tree.separator, if_neg (Nat.succ_ne_zero index)]
  split <;> exact List.cons_ne_nil _ _

theorem wordEnds_of_blank {c : Char} {rest : List Char} (h : isBlank c = true) :
    WordEnds (c :: rest) := by
  intro d hd
  cases hd
  rcases isBlank_iff.1 h with rfl | rfl | rfl | rfl <;> decide

theorem wordEnds_close (rest : List Char) : WordEnds (')' :: rest) := by
  intro d hd
  cases hd
  decide

/-- A word ends before the items that follow it. -/
theorem wordEnds_renderItems (block : Bool) (indent index : Nat) (ts : List Tree) {rest : List Char}
    (hends : WordEnds rest) : WordEnds (Tree.renderItems block indent (index + 1) ts ++ rest) := by
  cases ts with
  | nil => exact hends
  | cons t ts =>
    obtain ⟨c, cs, hsep⟩ := List.exists_cons_of_ne_nil (separator_succ_ne_nil block indent index t)
    rw [Tree.renderItems, List.append_assoc, List.append_assoc, hsep]
    exact wordEnds_of_blank (isBlank_separator _ _ _ _ c (hsep ▸ List.mem_cons_self))

/-! ## Trees -/

/-- A tree is printed with what a form opens with. -/
theorem opens_renderAt {t : Tree} (h : Worded t) (indent : Nat) (rest : List Char) :
    Opens (t.renderAt indent ++ rest) := by
  rcases t with ⟨a, s⟩ | ⟨items, s⟩
  · have hopens : ∀ word : List Char, word ≠ [] → (∀ c ∈ word, isSymbolChar c = true) →
        Opens (word ++ rest) := by
      intro word hne hword
      obtain ⟨c, cs, rfl⟩ := List.exists_cons_of_ne_nil hne
      exact ⟨c, cs ++ rest, rfl, .inr (.inr (hword c List.mem_cons_self))⟩
    rcases a with n | b | text | name
    · exact hopens _ (spells_render_int n).1 (spells_render_int n).2.1
    · exact hopens _ (spells_render_bool b).1 (spells_render_bool b).2.1
    · exact ⟨'"', _, rfl, .inr (.inl rfl)⟩
    · obtain ⟨hne, hword, -⟩ := h _ (List.mem_singleton.2 rfl)
      exact hopens _ hne hword
  · exact ⟨'(', _, rfl, .inl rfl⟩

/-- Printed items are read one after the other, if each of them is. -/
theorem forms_renderItems (block : Bool) (indent : Nat) {rest : List Char} (hends : WordEnds rest) :
    ∀ {ts : List Tree} (index : Nat), (∀ t ∈ ts, ∀ rest, WordEnds rest → ∃ u, u.alike t = true ∧
      Nonempty (Form size (t.renderAt (indent + 2) ++ rest) u rest)) →
    ∃ us, Tree.alikeAll us ts = true ∧
      Nonempty (Forms size (Tree.renderItems block indent index ts ++ rest) us rest)
  | [], _, _ => ⟨[], rfl, ⟨.last (.none rest)⟩⟩
  | t :: ts, index, h => by
    obtain ⟨us, halikes, ⟨d⟩⟩ := forms_renderItems block indent hends (index + 1)
      fun u hu => h u (List.mem_cons_of_mem t hu)
    obtain ⟨u, halike, ⟨f⟩⟩ :=
      h t List.mem_cons_self _ (wordEnds_renderItems block indent index ts hends)
    obtain ⟨g⟩ := gap_of_blanks (t.renderAt (indent + 2) ++
      (Tree.renderItems block indent (index + 1) ts ++ rest))
      (isBlank_separator block indent index t)
    rw [Tree.renderItems, List.append_assoc, List.append_assoc]
    exact ⟨u :: us, by rw [Tree.alikeAll, halike, halikes]; rfl, ⟨.next g f d⟩⟩

/-- **What is printed of a legible tree is a form that is like it.** -/
theorem form_renderAt {t : Tree} : Worded t → t.Legible → ∀ (indent : Nat) (rest : List Char),
    WordEnds rest →
      ∃ u, u.alike t = true ∧ Nonempty (Form size (t.renderAt indent ++ rest) u rest) := by
  induction t using Tree.inductItems with
  | leaf a s =>
    intro hworded hlegible indent rest hends
    obtain ⟨s', hform⟩ := form_leaf hworded hlegible hends
    exact ⟨.leaf a s', by rw [Tree.alike, decide_eq_true_eq], hform⟩
  | node items s ih =>
    intro hworded hlegible indent rest _
    obtain ⟨us, halikes, ⟨d⟩⟩ :=
      forms_renderItems (Tree.isBlock items) indent (wordEnds_close rest) 0 fun t ht rest hends =>
        ih t ht (worded_node.1 hworded t ht) (Tree.legible_node.1 hlegible t ht) _ rest hends
    have hrender : (Tree.node items s).renderAt indent ++ rest =
        '(' :: (Tree.renderItems (Tree.isBlock items) indent 0 items ++ ')' :: rest) := by
      rw [Tree.renderAt, List.cons_append, List.cons_append, List.append_assoc,
        List.singleton_append]
    rw [hrender]
    exact ⟨_, by rw [Tree.alike, halikes], ⟨.list d⟩⟩

/-- Printed items are no forms, if one of them is none. -/
theorem not_forms_renderItems {block : Bool} {indent : Nat} {rest : List Char}
    (hends : WordEnds rest) :
    ∀ {ts : List Tree} {index : Nat}, (∀ t ∈ ts, Worded t) → (∃ t ∈ ts, ¬t.Legible) →
    (∀ t ∈ ts, ¬t.Legible → ∀ {rest u after}, WordEnds rest →
      IsEmpty (Form size (t.renderAt (indent + 2) ++ rest) u after)) →
    ∀ {us : List Tree} {after : List Char}, Closed after →
      IsEmpty (Forms size (Tree.renderItems block indent index ts ++ rest) us after)
  | [], _, _, ⟨t, ht, _⟩, _, _, _, _ => absurd ht List.not_mem_nil
  | t :: ts, index, hworded, hsome, hnone, us, after, hclosed => by
    have hopens := opens_renderAt (hworded t List.mem_cons_self) (indent + 2)
      (Tree.renderItems block indent (index + 1) ts ++ rest)
    obtain ⟨g⟩ := gap_of_blanks (t.renderAt (indent + 2) ++
      (Tree.renderItems block indent (index + 1) ts ++ rest))
      (isBlank_separator block indent index t)
    rw [Tree.renderItems, List.append_assoc, List.append_assoc]
    refine ⟨fun d => ?_⟩
    -- the blanks come apart in one way, and so does the item if it is a form
    cases d with
    | last g' =>
      cases g.eq_of_noGap g' hopens.noGap hclosed.noGap
      exact hopens.not_closed hclosed
    | next g' f' d' =>
      cases g.eq_of_noGap g' hopens.noGap f'.opens.noGap
      have hitem := wordEnds_renderItems block indent index ts hends
      -- a legible item was read as far as it was printed, so the one that is none is behind it
      by_cases hlegible : t.Legible
      · obtain ⟨u, -, ⟨f⟩⟩ := @form_renderAt size t (hworded t List.mem_cons_self) hlegible
          (indent + 2) _ hitem
        cases Form.eq f f'
        obtain ⟨v, hv, hbad⟩ := hsome
        have hlater : v ∈ ts := (List.mem_cons.1 hv).resolve_left fun heq => hbad (heq ▸ hlegible)
        exact (not_forms_renderItems hends (fun u hu => hworded u (List.mem_cons_of_mem t hu))
          ⟨v, hlater, hbad⟩ (fun u hu => hnone u (List.mem_cons_of_mem t hu)) hclosed).false d'
      · exact (hnone t List.mem_cons_self hlegible hitem).false f'

/-- **What is printed of a tree that is not legible is no form.** -/
theorem not_form_renderAt {t : Tree} :
    Worded t → ¬t.Legible → ∀ (indent : Nat) {rest : List Char} {u : Tree}
    {after : List Char}, WordEnds rest →
    IsEmpty (Form size (t.renderAt indent ++ rest) u after) := by
  induction t using Tree.inductItems with
  | leaf a s =>
    intro _ hbad indent rest u after _
    -- no other leaf than a string can fail to be legible
    rcases a with n | b | text | name
    · exact absurd (fun _ h => absurd h List.not_mem_nil) hbad
    · exact absurd (fun _ h => absurd h List.not_mem_nil) hbad
    · have hcoded : ∃ c ∈ text.toList, Kiln.Quoted.IsCoded c := by
        by_contra hno
        refine hbad fun text' htext c hc hcoded => hno ⟨c, ?_, hcoded⟩
        rwa [List.mem_singleton.1 htext] at hc
      refine ⟨fun f => ?_⟩
      rw [Tree.renderAt, Atom.render, Kiln.Quoted.encode, List.cons_append, List.cons_append,
        List.append_assoc] at f
      cases f with
      | string q => exact (not_quoted_encode hcoded).false q
      | word word htext hne hword => exact absurd (head_of_word htext hne hword) (by decide)
    · exact absurd (fun _ h => absurd h List.not_mem_nil) hbad
  | node items s ih =>
    intro hworded hbad indent rest u after _
    have hsome : ∃ t ∈ items, ¬t.Legible := by
      by_contra hno
      exact hbad (Tree.legible_node.2 fun t ht => by_contra fun h => hno ⟨t, ht, h⟩)
    refine ⟨fun f => ?_⟩
    rw [Tree.renderAt, List.cons_append, List.cons_append, List.append_assoc] at f
    cases f with
    | list d =>
      exact (not_forms_renderItems (wordEnds_close rest) (worded_node.1 hworded) hsome
        (fun t ht hbad' => ih t ht (worded_node.1 hworded t ht) hbad' _) (.inr ⟨_, rfl⟩)).false d
    | word word htext hne hword => exact absurd (head_of_word htext hne hword) (by decide)

/-! ## Texts -/

theorem wordEnds_nil : WordEnds [] := fun c hc => by cases hc

/-- A legible tree is printed as a text that is read as a like tree, in whatever column it
starts. -/
theorem readForms_of_legible {t : Tree} (hworded : Worded t) (hlegible : t.Legible) (indent : Nat) :
    ∃ u, readForms (String.ofList (t.renderAt indent)) = .ok [u] ∧ u.alike t = true := by
  obtain ⟨u, halike, ⟨f⟩⟩ :=
    @form_renderAt (byteCount (t.renderAt indent)) t hworded hlegible indent [] wordEnds_nil
  rw [List.append_nil] at f
  refine ⟨u, readForms_of_derivation ?_, halike⟩
  rw [Derivation, String.toList_ofList]
  exact .next (.none _) f (.last (.none []))

/-- Any other tree is printed as a text that is refused. -/
theorem error_of_not_legible {t : Tree} (hworded : Worded t) (hbad : ¬t.Legible) (indent : Nat) :
    ∃ e, readForms (String.ofList (t.renderAt indent)) = .error e := by
  rcases hread : readForms (String.ofList (t.renderAt indent)) with e | forms
  · exact ⟨e, rfl⟩
  · obtain ⟨d⟩ := derivation_of_readForms hread
    have hopens := opens_renderAt hworded indent []
    have hnone := @not_form_renderAt (byteCount (t.renderAt indent)) t hworded hbad indent []
    rw [Derivation, String.toList_ofList] at d
    rw [List.append_nil] at hopens hnone
    generalize t.renderAt indent = text at d hopens hnone
    -- the text is not empty, and its first form would be what was printed
    exfalso
    cases d with
    | last g =>
      cases g.eq_of_noGap (.none text) (Closed.noGap (.inl rfl)) hopens.noGap
      exact hopens.not_closed (.inl rfl)
    | next g f d =>
      cases (Gap.none text).eq_of_noGap g hopens.noGap f.opens.noGap
      exact (hnone wordEnds_nil).false f

/-- **A tree that was read is printed as a text that is read as a like tree, just if it is
legible**; any other is printed as a text that is refused. In which column the printing starts makes
no difference. -/
theorem readForms_render {text : String} {forms : List Tree} (hread : readForms text = .ok forms)
    {root t : Tree} (hroot : root ∈ forms) (ht : t.PartOf root) :
    ((∃ u, readForms t.render = .ok [u] ∧ u.alike t = true) ↔ t.Legible) ∧
    (¬t.Legible → ∃ e, readForms t.render = .error e) ∧
    (t.Legible → ∀ indent, ∃ u, readForms (String.ofList (t.renderAt indent)) = .ok [u] ∧
      u.alike t = true) := by
  obtain ⟨d⟩ := derivation_of_readForms hread
  have hworded : Worded t := fun p hp => d.worded root hroot p (ht.symbols_subset hp)
  refine ⟨⟨?_, fun hlegible => readForms_of_legible hworded hlegible 0⟩,
    fun hbad => error_of_not_legible hworded hbad 0, readForms_of_legible hworded⟩
  rintro ⟨u, hu, -⟩
  by_contra hbad
  obtain ⟨e, he⟩ := error_of_not_legible hworded hbad 0
  rw [Tree.render, he] at hu
  cases hu

/-- A sequence whose lists are broken up is read again; the list around it has a bell in a string,
and is not. -/
theorem readForms_render_broken :
    let block : Tree := .node [.leaf (.sym "do") ⟨2, 4⟩, .leaf (.sym "f") ⟨5, 6⟩,
      .node [.leaf (.sym "g") ⟨8, 9⟩, .leaf (.int (-7)) ⟨10, 12⟩] ⟨7, 13⟩,
      .node [.leaf (.sym "h") ⟨15, 16⟩, .leaf (.str "\n") ⟨17, 21⟩] ⟨14, 22⟩] ⟨1, 23⟩
    let root : Tree := .node [block, .leaf (.str "\x07") ⟨24, 27⟩] ⟨0, 28⟩
    readForms "((do f (g -7) (h \"\\n\")) \"\x07\")" = .ok [root] ∧ root ∈ [root] ∧
      block.PartOf root ∧
      (∃ u, readForms block.render = .ok [u] ∧ u.alike block = true) ∧
      ∃ e, readForms root.render = .error e := by
  intro block root
  have hread : readForms "((do f (g -7) (h \"\\n\")) \"\x07\")" = .ok [root] := by
    rw [@readForms_eq _ "((do f (g -7) (h \"\\n\")) \"\x07\")".toList rfl]
    rfl
  have hblock : block.PartOf root := .item List.mem_cons_self (.whole block)
  have hlegible : block.Legible := by
    intro text htext c hc
    obtain rfl : text = "\n" := List.mem_singleton.1 htext
    obtain rfl : c = '\n' := List.mem_singleton.1 hc
    exact fun hcoded => absurd hcoded (by decide)
  have hbad : ¬root.Legible := fun h =>
    h "\x07" (by decide) '\x07' (by decide) (by decide)
  exact ⟨hread, List.mem_singleton_self _, hblock,
    (readForms_render hread (List.mem_singleton_self _) hblock).1.2 hlegible,
    (readForms_render hread (List.mem_singleton_self _) (.whole root)).2.1 hbad⟩

end Grammar

end Kiln
