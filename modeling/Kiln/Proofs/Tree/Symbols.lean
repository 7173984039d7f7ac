import Kiln.Proofs.Text.Places
import Kiln.Proofs.Tree.Printing
/-!
# Texts that are symbols

Whether a text can serve as a name is asked in two ways: of the text itself (`isSymbol`), and of the
reader, which has rules for whole words. The reader takes a text for one symbol just if it is made
of characters of words and is no literal (`Grammar.isWord_iff`, `Grammar.readForms_symbol_iff`).
`isSymbol` finds all of these texts, and some more that are read otherwise (`Grammar.Misread`): the
words for truth values, and words that open as a negative number and are none. So the two agree on
all texts but those (`Grammar.isSymbol_read_iff`).
-/

namespace Kiln

namespace Grammar

/-! ## Words that are no symbols -/

/-- The word is no symbol: it opens as a number, or is a truth value. -/
def Literal (word : List Char) : Prop :=
  OpensAsNumber word ∨ word = ['t', 'r', 'u', 'e'] ∨ word = ['f', 'a', 'l', 's', 'e']

/-- A word spells a symbol if it is no literal. -/
theorem isWord_iff {name : String} : IsWord name ↔
    (name.toList ≠ [] ∧ ∀ c ∈ name.toList, isSymbolChar c = true) ∧ ¬Literal name.toList := by
  rw [IsWord, ← and_assoc]
  refine and_congr_right fun _ => ⟨fun h => ?_, fun h => ?_⟩
  · generalize name.toList = word at h
    cases h with
    | name hnumber hyes hno =>
      rintro (hopens | rfl | rfl)
      · exact hnumber hopens
      · exact hyes rfl
      · exact hno rfl
  · rw [Literal, not_or, not_or] at h
    have hspells := Spells.name h.1 h.2.1 h.2.2
    rwa [String.ofList_toList] at hspells

/-- **A text is read as one symbol, which is the text itself, just if it is a word for a
symbol.** -/
theorem readForms_symbol_iff {text : String} : (∃ s, readForms text = .ok [.leaf (.sym text) s]) ↔
    IsWord text := by
  constructor
  · rintro ⟨s, hread⟩
    obtain ⟨d⟩ := derivation_of_readForms hread
    cases d with
    | next g f d => exact f.worded _ (List.mem_singleton_self _)
  · rintro ⟨hne, hword, hspells⟩
    have f : Form (byteCount text.toList) text.toList _ [] :=
      .word text.toList (List.append_nil _).symm hne hword wordEnds_nil hspells
    exact ⟨_, readForms_of_derivation (.next (.none _) f (.last (.none [])))⟩

/-! ## Texts of one word -/

/-- **A text that is one word is read as the atom that it spells, or refused as a whole.** -/
theorem readForms_word {text : String} (hne : text.toList ≠ [])
    (hword : ∀ c ∈ text.toList, isSymbolChar c = true) :
    (∀ a, wordAtom text.toList = .ok a → readForms text = .ok [.leaf a (.whole text)]) ∧
    ∀ f, wordAtom text.toList = .error f → readForms text = .error ⟨f, .whole text⟩ := by
  have hscan := scan_word hne hword wordEnds_nil 0
  rw [List.append_nil, Nat.zero_add, ← utf8ByteSize_eq] at hscan
  constructor
  · intro a hatom
    rw [readForms, hscan.1 a hatom, scan]
    rfl
  · intro f hatom
    rw [readForms, hscan.2 f hatom]
    rfl

/-! ## Texts that pass for symbols -/

/-- A text passes for a symbol if it is made of characters of words, opens with no digit and is no
number. -/
theorem isSymbol_iff {text : String} : isSymbol text = true ↔
    (text.toList ≠ [] ∧ ∀ c ∈ text.toList, isSymbolChar c = true) ∧
      (∀ c, text.toList.head? = some c → c.isDigit = false) ∧ isNumber text.toList = false := by
  have hhead : ∀ word : List Char, (word.take 1).any Char.isDigit = false ↔
      ∀ c, word.head? = some c → c.isDigit = false := by
    rintro (_ | ⟨c, word⟩) <;> simp
  simp only [isSymbol, Bool.and_eq_true, Bool.not_eq_true', List.isEmpty_eq_false_iff,
    List.all_eq_true, hhead, and_assoc]

/-- A number opens as one. -/
theorem opensAsNumber_of_isNumber {word : List Char} (h : isNumber word = true) :
    OpensAsNumber word := by
  obtain ⟨digits, hne, hdigits, rfl | rfl⟩ := digits_of_isNumber h
  · exact opensAsNumber_of_digits hne hdigits
  · exact opensAsNumber_of_minus hne hdigits

/-- A minus and a digit with another character behind them are no number. -/
theorem not_isNumber {d : Char} {rest : List Char} (hother : ∃ c ∈ rest, c.isDigit = false) :
    isNumber ('-' :: d :: rest) = false := by
  obtain ⟨c, hc, hno⟩ := hother
  rw [Bool.eq_false_iff]
  intro h
  rw [isNumber, Bool.and_eq_true, List.all_eq_true] at h
  have hdigit := h.2 c (List.mem_cons_of_mem d hc)
  rw [hno] at hdigit
  cases hdigit

/-- **A word for a symbol passes for one.** -/
theorem IsWord.isSymbol {text : String} (h : IsWord text) : isSymbol text = true := by
  obtain ⟨hword, hliteral⟩ := isWord_iff.1 h
  refine isSymbol_iff.2 ⟨hword, fun c hc => ?_, ?_⟩
  · obtain ⟨rest, hrest⟩ := List.head?_eq_some_iff.1 hc
    rw [Bool.eq_false_iff]
    exact fun hdigit => hliteral (.inl ⟨c, rest, hdigit, .inl hrest⟩)
  · rw [Bool.eq_false_iff]
    exact fun hnumber => hliteral (.inl (opensAsNumber_of_isNumber hnumber))

/-- A text that passes for a symbol, and what the reader makes of it instead. -/
inductive Misread : String → Except SyntaxError (List Tree) → Prop
  | yes : Misread "true" (.ok [.leaf (.bool true) ⟨0, 4⟩])
  | no : Misread "false" (.ok [.leaf (.bool false) ⟨0, 5⟩])
  /-- A minus and a digit, with a character behind them that is no digit. -/
  | number {text : String} {d : Char} {rest : List Char} (htext : text.toList = '-' :: d :: rest)
      (hdigit : d.isDigit = true) (hword : ∀ c ∈ rest, isSymbolChar c = true)
      (hother : ∃ c ∈ rest, c.isDigit = false) :
      Misread text (.error ⟨.malformedNumber text, .whole text⟩)

namespace Misread

variable {text : String} {result : Except SyntaxError (List Tree)}

theorem isSymbolChar_of_number {d : Char} {rest : List Char} (hdigit : d.isDigit = true)
    (hword : ∀ c ∈ rest, isSymbolChar c = true) : ∀ c ∈ '-' :: d :: rest, isSymbolChar c = true :=
  List.forall_mem_cons.2 ⟨by decide, List.forall_mem_cons.2 ⟨isSymbolChar_of_isDigit hdigit, hword⟩⟩

/-- It is read as that. -/
theorem readForms_eq (h : Misread text result) : readForms text = result := by
  cases h with
  | yes => exact (readForms_word (by decide) (List.all_eq_true.1 (by decide))).1 _ rfl
  | no => exact (readForms_word (by decide) (List.all_eq_true.1 (by decide))).1 _ rfl
  | number htext hdigit hword hother =>
    have hatom : wordAtom text.toList = .error (.malformedNumber text) := by
      rw [wordAtom, htext, if_pos (startsAsNumber_iff.2 ⟨_, _, hdigit, .inr rfl⟩),
        not_isNumber hother, ← htext, String.ofList_toList]
      rfl
    have hne : text.toList ≠ [] := htext ▸ List.cons_ne_nil _ _
    exact (readForms_word hne (htext ▸ isSymbolChar_of_number hdigit hword)).2 _ hatom

/-- It passes for a symbol. -/
theorem isSymbol (h : Misread text result) : isSymbol text = true := by
  cases h with
  | yes => decide
  | no => decide
  | number htext hdigit hword hother =>
    refine isSymbol_iff.2 ?_
    rw [htext]
    exact ⟨⟨List.cons_ne_nil _ _,
      isSymbolChar_of_number hdigit hword⟩, by rintro _ ⟨⟩; decide, not_isNumber hother⟩

/-- It is not read as a symbol. -/
theorem not_symbol (h : Misread text result) (s : Span) :
    readForms text ≠ .ok [.leaf (.sym text) s] := by
  rw [h.readForms_eq]
  rintro heq
  cases h <;> cases heq

end Misread

/-- **What passes for a symbol is a word for one, or misread.** -/
theorem isSymbol_cases {text : String} (h : isSymbol text = true) :
    IsWord text ∨ ∃ result, Misread text result := by
  obtain ⟨hword, hhead, hnumber⟩ := isSymbol_iff.1 h
  by_cases hliteral : Literal text.toList
  · right
    rcases hliteral with ⟨d, rest, hdigit, heq | heq⟩ | heq | heq
    · have hno := hhead d (by rw [heq]; rfl)
      rw [hdigit] at hno
      cases hno
    · refine ⟨_, .number heq hdigit (fun c hc => hword.2 c ?_) ?_⟩
      · rw [heq]
        exact List.mem_cons_of_mem _ (List.mem_cons_of_mem _ hc)
      · by_contra hdigits
        have hall : ∀ c ∈ d :: rest, c.isDigit = true := by
          refine List.forall_mem_cons.2 ⟨hdigit, fun c hc => ?_⟩
          by_contra hc'
          exact hdigits ⟨c, hc, Bool.eq_false_iff.2 hc'⟩
        rw [heq, (isNumber_of_digits (List.cons_ne_nil _ _) hall).2] at hnumber
        cases hnumber
    · obtain rfl : text = "true" := String.toList_inj.1 heq
      exact ⟨_, .yes⟩
    · obtain rfl : text = "false" := String.toList_inj.1 heq
      exact ⟨_, .no⟩
  · exact .inl (isWord_iff.2 ⟨hword, hliteral⟩)

/-- **A text passes for a symbol just if it is read as that symbol, or is misread.** What is misread
is read as something else, or refused; so asking the text and asking the reader comes to the same
for a text just if it is not one of those. -/
theorem isSymbol_read_iff (text : String) :
    (isSymbol text = true ↔ (∃ s, readForms text = .ok [.leaf (.sym text) s]) ∨
      ∃ result, Misread text result) ∧
      (∀ result, Misread text result → readForms text = result) ∧
      ((isSymbol text = true ↔ ∃ s, readForms text = .ok [.leaf (.sym text) s]) ↔
        ∀ result, ¬Misread text result) := by
  have hpasses : isSymbol text = true ↔
      (∃ s, readForms text = .ok [.leaf (.sym text) s]) ∨ ∃ result, Misread text result := by
    rw [readForms_symbol_iff]
    exact ⟨isSymbol_cases, fun h => h.elim IsWord.isSymbol fun ⟨_, h⟩ => h.isSymbol⟩
  refine ⟨hpasses, fun _ h => h.readForms_eq, ⟨fun hagree result h => ?_, fun hnone => ?_⟩⟩
  · obtain ⟨s, hread⟩ := hagree.1 h.isSymbol
    exact h.not_symbol s hread
  · rw [hpasses]
    exact or_iff_left fun ⟨result, h⟩ => hnone result h

/-- The word for a truth value passes for a symbol, and so does a minus with a digit and a letter
behind it. -/
theorem isSymbol_misread :
    isSymbol "true" = true ∧ readForms "true" = .ok [.leaf (.bool true) ⟨0, 4⟩] ∧
    isSymbol "-1x" = true ∧ readForms "-1x" = .error ⟨.malformedNumber "-1x", ⟨0, 3⟩⟩ := by
  have hnumber : Misread "-1x" (.error ⟨.malformedNumber "-1x", .whole "-1x"⟩) :=
    @Misread.number "-1x" '1' ['x'] rfl rfl (List.all_eq_true.1 (by decide))
      ⟨'x', List.mem_cons_self, rfl⟩
  exact ⟨Misread.yes.isSymbol, Misread.yes.readForms_eq, hnumber.isSymbol, hnumber.readForms_eq⟩

end Grammar

end Kiln
