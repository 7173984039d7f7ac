import Kiln.Tree.Lexeme
import Mathlib.Data.List.Nodup
import Mathlib.Data.Nat.Digits.Defs
/-!
# The grammar of texts

What a text says, told without reading it: forms with blanks and comments around them, where a form
is a list between parentheses, a string between quotes or a word that nothing could be added to. A
derivation is a piece of data, which says how a text comes apart (`Grammar.Form`, `Grammar.Forms`),
and a text comes apart in one way at most (`Grammar.Forms.eq_of_closed`). Each rule speaks of the
text that is there and of the text that is left, so that a word can be asked to end only where no
character of words follows.
-/

namespace Kiln

namespace Grammar

/-! ## Blanks and comments -/

/-- The text is at an end of a line: at its own end, before a newline, or before a carriage return
and a newline. -/
inductive AtLineEnd : List Char → Prop
  | finish : AtLineEnd []
  | newline (rest : List Char) : AtLineEnd ('\n' :: rest)
  | pair (rest : List Char) : AtLineEnd ('\r' :: '\n' :: rest)

/-- Blanks and comments, up to the rest of the text. A comment goes on to the end of its line. -/
inductive Gap : List Char → List Char → Type
  | none (rest : List Char) : Gap rest rest
  | blank {text rest : List Char} (c : Char) (hblank : c = ' ' ∨ c = '\t' ∨ c = '\r' ∨ c = '\n') :
      Gap text rest → Gap (c :: text) rest
  | comment {text after rest : List Char} (body : List Char) (htext : text = ';' :: (body ++ after))
      (hbody : ∀ c ∈ body, c ≠ '\r' ∧ c ≠ '\n') (hend : AtLineEnd after) :
      Gap after rest → Gap text rest

/-! ## Strings -/

/-- The characters that may stand after a backslash, and what they mean there. -/
def escapes : List (Char × Char) :=
  [('n', '\n'), ('t', '\t'), ('r', '\r'), ('0', '\x00'), ('\\', '\\'), ('"', '"')]

/-- From behind the opening quote of a string: what the string stands for, and the text behind its
closing quote. -/
inductive Quoted : List Char → List Char → List Char → Type
  | close (rest : List Char) : Quoted ('"' :: rest) [] rest
  | escape {text meant rest : List Char} (c d : Char) (hescape : (c, d) ∈ escapes) :
      Quoted text meant rest → Quoted ('\\' :: c :: text) (d :: meant) rest
  | plain {text meant rest : List Char} (c : Char) (hquote : c ≠ '"') (hslash : c ≠ '\\') :
      Quoted text meant rest → Quoted (c :: text) (c :: meant) rest

/-! ## Words -/

/-- The number that decimal digits spell. -/
def decimal (digits : List Char) : Nat :=
  Nat.ofDigits 10 (digits.reverse.map fun d => d.toNat - '0'.toNat)

/-- The word opens with a digit, or with a minus and a digit. -/
def OpensAsNumber (word : List Char) : Prop :=
  ∃ d rest, d.isDigit = true ∧ (word = d :: rest ∨ word = '-' :: d :: rest)

/-- The atom that a word spells. A word that opens as a number has to be one, which 64 bits can
hold. -/
inductive Spells : List Char → Atom → Prop
  | positive {digits : List Char} {n : Int64} (hne : digits ≠ [])
      (hdigits : ∀ d ∈ digits, d.isDigit = true) (hvalue : n.toInt = decimal digits) :
      Spells digits (.int n)
  | negative {digits : List Char} {n : Int64} (hne : digits ≠ [])
      (hdigits : ∀ d ∈ digits, d.isDigit = true) (hvalue : n.toInt = -(decimal digits : Int)) :
      Spells ('-' :: digits) (.int n)
  | yes : Spells ['t', 'r', 'u', 'e'] (.bool true)
  | no : Spells ['f', 'a', 'l', 's', 'e'] (.bool false)
  | name {word : List Char} (hnumber : ¬OpensAsNumber word) (hyes : word ≠ ['t', 'r', 'u', 'e'])
      (hno : word ≠ ['f', 'a', 'l', 's', 'e']) : Spells word (.sym (String.ofList word))

/-- The rest of a text that goes on with no character of words. -/
def WordEnds (rest : List Char) : Prop := ∀ c, rest.head? = some c → isSymbolChar c = false

/-! ## Forms -/

/-- Where the rest of a text starts, of a text of that many bytes. -/
def place (size : Nat) (rest : List Char) : Nat := size - byteCount rest

/-- What lies between the starts of two rests of a text. -/
def stretch (size : Nat) (text rest : List Char) : Span := ⟨place size text, place size rest⟩

variable (size : Nat)

mutual

/-- One form at the front of the text, of a whole of that many bytes, and the text behind it. -/
inductive Form : List Char → Tree → List Char → Type
  | list {text rest : List Char} {items : List Tree} :
      Forms text items (')' :: rest) →
        Form ('(' :: text) (.node items (stretch size ('(' :: text) rest)) rest
  | string {text meant rest : List Char} : Quoted text meant rest →
      Form ('"' :: text) (.leaf (.str (String.ofList meant)) (stretch size ('"' :: text) rest)) rest
  | word {text rest : List Char} {a : Atom} (word : List Char) (htext : text = word ++ rest)
      (hne : word ≠ []) (hword : ∀ c ∈ word, isSymbolChar c = true) (hends : WordEnds rest)
      (hspells : Spells word a) : Form text (.leaf a (stretch size text rest)) rest

/-- Any number of forms, with blanks and comments before, between and behind them. -/
inductive Forms : List Char → List Tree → List Char → Type
  | last {text rest : List Char} : Gap text rest → Forms text [] rest
  | next {text start after rest : List Char} {t : Tree} {ts : List Tree} :
      Gap text start → Form start t after → Forms after ts rest → Forms text (t :: ts) rest

end

/-- How a whole text comes to say these forms. -/
abbrev Derivation (text : String) (forms : List Tree) : Type :=
  Forms (byteCount text.toList) text.toList forms []

/-! ## What a text can open with -/

/-- The text goes on with no blank and no comment. -/
def NoGap (rest : List Char) : Prop := ∀ c, rest.head? = some c → isBlank c = false ∧ c ≠ ';'

/-- The text goes on as a form does: with a parenthesis that opens a list, a quote or a character of
words. -/
def Opens (text : List Char) : Prop :=
  ∃ c cs, text = c :: cs ∧ (c = '(' ∨ c = '"' ∨ isSymbolChar c = true)

/-- The text is at its end, or before a parenthesis that closes a list. -/
def Closed (rest : List Char) : Prop := rest = [] ∨ ∃ after, rest = ')' :: after

theorem isBlank_iff {c : Char} : isBlank c = true ↔ c = ' ' ∨ c = '\t' ∨ c = '\r' ∨ c = '\n' := by
  simp only [isBlank, Bool.or_eq_true, beq_iff_eq, or_assoc]

/-! ## A text comes apart in one way -/

/-- A run that could not be longer is what is taken while its property holds. -/
theorem run_append {p : Char → Bool} {run rest : List Char} (hrun : ∀ c ∈ run, p c = true)
    (hrest : ∀ c, rest.head? = some c → p c = false) :
    (run ++ rest).takeWhile p = run ∧ (run ++ rest).dropWhile p = rest := by
  have hstop : rest.takeWhile p = [] ∧ rest.dropWhile p = rest := by
    cases rest with
    | nil => exact ⟨rfl, rfl⟩
    | cons c rest =>
      have hc : p c = false := hrest c rfl
      exact ⟨by rw [List.takeWhile_cons, hc]; rfl, by rw [List.dropWhile_cons, hc]; rfl⟩
  rw [List.takeWhile_append_of_pos hrun, List.dropWhile_append_of_pos hrun, hstop.1, hstop.2,
    List.append_nil]
  exact ⟨rfl, rfl⟩

/-- So a text comes apart into a run and the rest in one way. -/
theorem run_unique {p : Char → Bool} {run run' rest rest' : List Char}
    (hrun : ∀ c ∈ run, p c = true) (hrest : ∀ c, rest.head? = some c → p c = false)
    (hrun' : ∀ c ∈ run', p c = true) (hrest' : ∀ c, rest'.head? = some c → p c = false)
    (h : run ++ rest = run' ++ rest') :
    run = run' ∧ rest = rest' := by
  have hleft := run_append hrun hrest
  have hright := run_append hrun' hrest'
  rw [h] at hleft
  exact ⟨hleft.1.symm.trans hright.1, hleft.2.symm.trans hright.2⟩

theorem inComment_iff {c : Char} : inComment c = true ↔ c ≠ '\r' ∧ c ≠ '\n' := by
  simp only [inComment, Bool.and_eq_true, bne_iff_ne]
  exact and_comm

theorem AtLineEnd.stops {rest : List Char} (h : AtLineEnd rest) :
    ∀ c, rest.head? = some c → inComment c = false := by
  intro c hc
  cases h with
  | finish => cases hc
  | newline rest =>
    cases hc
    decide
  | pair rest =>
    cases hc
    decide

/-- **Blanks and comments come apart in one way**, up to where neither follows. -/
theorem Gap.eq_of_noGap {text rest rest' : List Char} (d : Gap text rest) (d' : Gap text rest')
    (h : NoGap rest) (h' : NoGap rest') : (⟨rest, d⟩ : Σ r, Gap text r) = ⟨rest', d'⟩ := by
  induction d with
  | none rest =>
    cases d' with
    | none => rfl
    | blank c hblank d' => exact absurd (isBlank_iff.2 hblank) (by rw [(h c rfl).1]; decide)
    | comment body htext hbody hend d' =>
      subst htext
      exact absurd rfl (h ';' rfl).2
  | blank c hblank d ih =>
    cases d' with
    | none => exact absurd (isBlank_iff.2 hblank) (by rw [(h' c rfl).1]; decide)
    | blank c hblank' d' =>
      cases ih d' h
      rfl
    | comment body htext hbody hend d' =>
      cases htext
      exact absurd hblank (by decide)
  | comment body htext hbody hend d ih =>
    cases d' with
    | none =>
      subst htext
      have hsemicolon := h' ';' rfl
      exact absurd rfl hsemicolon.2
    | blank c hblank d' =>
      cases htext
      exact absurd hblank (by decide)
    | comment body' htext' hbody' hend' d' =>
      -- both comments go on to the end of the line
      obtain ⟨rfl, rfl⟩ := run_unique (fun c hc => inComment_iff.2 (hbody c hc)) hend.stops
        (fun c hc => inComment_iff.2 (hbody' c hc)) hend'.stops
        (List.cons.inj (htext.symm.trans htext')).2
      cases ih d' h
      rfl

/-- A character after a backslash means one thing. -/
theorem eq_of_mem_escapes {c d d' : Char} (h : (c, d) ∈ escapes) (h' : (c, d') ∈ escapes) :
    d = d' := by
  have hnodup : (escapes.map (·.1)).Nodup := by decide
  exact congrArg Prod.snd (List.inj_on_of_nodup_map hnodup h h' rfl)

/-- **A string comes apart in one way.** -/
theorem Quoted.eq {text meant meant' rest rest' : List Char} (d : Quoted text meant rest)
    (d' : Quoted text meant' rest') :
    (⟨(meant, rest), d⟩ : Σ p : List Char × List Char, Quoted text p.1 p.2) =
    ⟨(meant', rest'), d'⟩ := by
  induction d generalizing meant' rest' with
  | close rest =>
    cases d' with
    | close => rfl
    | plain c hquote hslash d' => exact absurd rfl hquote
  | escape c d hescape q ih =>
    cases d' with
    | escape c d' hescape' q' =>
      obtain rfl := eq_of_mem_escapes hescape hescape'
      cases ih q'
      rfl
    | plain c' hquote hslash q' => exact absurd rfl hslash
  | plain c hquote hslash q ih =>
    cases d' with
    | close => exact absurd rfl hquote
    | escape c d' hescape' q' => exact absurd rfl hslash
    | plain c hquote hslash q' =>
      cases ih q'
      rfl

theorem opensAsNumber_of_digits {digits : List Char} (hne : digits ≠ [])
    (hdigits : ∀ d ∈ digits, d.isDigit = true) : OpensAsNumber digits := by
  cases digits with
  | nil => exact absurd rfl hne
  | cons d rest => exact ⟨d, rest, hdigits d List.mem_cons_self, .inl rfl⟩

theorem opensAsNumber_of_minus {digits : List Char} (hne : digits ≠ [])
    (hdigits : ∀ d ∈ digits, d.isDigit = true) : OpensAsNumber ('-' :: digits) := by
  cases digits with
  | nil => exact absurd rfl hne
  | cons d rest => exact ⟨d, rest, hdigits d List.mem_cons_self, .inr rfl⟩

theorem OpensAsNumber.head {word : List Char} (h : OpensAsNumber word) :
    ∃ c rest, word = c :: rest ∧ (c = '-' ∨ c.isDigit = true) := by
  obtain ⟨d, rest, hd, rfl | rfl⟩ := h
  · exact ⟨d, rest, rfl, .inr hd⟩
  · exact ⟨'-', d :: rest, rfl, .inl rfl⟩

/-- **A word spells one atom.** -/
theorem Spells.eq {word : List Char} {a a' : Atom} (h : Spells word a) (h' : Spells word a') :
    a = a' := by
  cases h with
  | positive hne hdigits hvalue =>
    cases h' with
    | positive hne' hdigits' hvalue' => rw [Int64.toInt_inj.1 (hvalue.trans hvalue'.symm)]
    | negative => exact absurd (hdigits '-' List.mem_cons_self) (by decide)
    | yes => exact absurd (hdigits 't' List.mem_cons_self) (by decide)
    | no => exact absurd (hdigits 'f' List.mem_cons_self) (by decide)
    | name hnumber => exact absurd (opensAsNumber_of_digits hne hdigits) hnumber
  | negative hne hdigits hvalue =>
    cases h' with
    | positive hne' hminus => exact absurd (hminus '-' List.mem_cons_self) (by decide)
    | negative hne' hdigits' hvalue' => rw [Int64.toInt_inj.1 (hvalue.trans hvalue'.symm)]
    | name hnumber => exact absurd (opensAsNumber_of_minus hne hdigits) hnumber
  | yes =>
    cases h' with
    | positive hne hdigits => exact absurd (hdigits 't' List.mem_cons_self) (by decide)
    | yes => rfl
    | name hnumber hyes => exact absurd rfl hyes
  | no =>
    cases h' with
    | positive hne hdigits => exact absurd (hdigits 'f' List.mem_cons_self) (by decide)
    | no => rfl
    | name hnumber hyes hno => exact absurd rfl hno
  | name hnumber hyes hno =>
    cases h' with
    | positive hne hdigits => exact absurd (opensAsNumber_of_digits hne hdigits) hnumber
    | negative hne hdigits => exact absurd (opensAsNumber_of_minus hne hdigits) hnumber
    | yes => exact absurd rfl hyes
    | no => exact absurd rfl hno
    | name => rfl

variable {size : Nat}

/-- A text with a word in front starts with a character of words. -/
theorem head_of_word {c : Char} {word rest cs : List Char} (htext : c :: cs = word ++ rest)
    (hne : word ≠ []) (hword : ∀ d ∈ word, isSymbolChar d = true) : isSymbolChar c = true := by
  cases word with
  | nil => exact absurd rfl hne
  | cons d word =>
    cases htext
    exact hword c List.mem_cons_self

/-- A form opens as forms do. -/
theorem Form.opens {text rest : List Char} {t : Tree} (d : Form size text t rest) : Opens text := by
  cases d with
  | list => exact ⟨_, _, rfl, .inl rfl⟩
  | string => exact ⟨_, _, rfl, .inr (.inl rfl)⟩
  | word word htext hne hword =>
    cases word with
    | nil => exact absurd rfl hne
    | cons c cs => exact ⟨c, cs ++ rest, htext, .inr (.inr (hword c List.mem_cons_self))⟩

/-- A character of words is none of those that stand for something by themselves. -/
theorem plain_of_isSymbolChar {c : Char} (h : isSymbolChar c = true) :
    isBlank c = false ∧ c ≠ ';' ∧ c ≠ '(' ∧ c ≠ ')' ∧ c ≠ '"' := by
  have hnot : ∀ d ∈ [' ', '\t', '\r', '\n', ';', '(', ')', '"'], c ≠ d := by
    rintro d hd rfl
    have hno : [' ', '\t', '\r', '\n', ';', '(', ')', '"'].all (!isSymbolChar ·) = true := by decide
    have hc := List.all_eq_true.1 hno c hd
    rw [h] at hc
    cases hc
  refine ⟨?_, hnot _ (by decide), hnot _ (by decide), hnot _ (by decide), hnot _ (by decide)⟩
  rw [Bool.eq_false_iff]
  intro hblank
  rcases isBlank_iff.1 hblank with rfl | rfl | rfl | rfl <;> exact hnot _ (by decide) rfl

theorem Opens.noGap {text : List Char} (h : Opens text) : NoGap text := by
  obtain ⟨c, cs, rfl, hc⟩ := h
  intro c' hc'
  cases hc'
  rcases hc with rfl | rfl | hc
  · decide
  · decide
  · exact ⟨(plain_of_isSymbolChar hc).1, (plain_of_isSymbolChar hc).2.1⟩

theorem Opens.not_closed {text : List Char} (h : Opens text) : ¬Closed text := by
  obtain ⟨c, cs, rfl, hc⟩ := h
  rintro (h | ⟨after, h⟩)
  · cases h
  · cases h
    exact absurd hc (by decide)

theorem Closed.noGap {rest : List Char} (h : Closed rest) : NoGap rest := by
  rcases h with rfl | ⟨after, rfl⟩
  · exact fun c hc => by cases hc
  · intro c hc
    cases hc
    decide

mutual

/-- **A form comes apart in one way.** -/
theorem Form.eq {text : List Char} :
    ∀ {t t' : Tree} {rest rest' : List Char} (d : Form size text t rest)
    (d' : Form size text t' rest'),
    (⟨(t, rest), d⟩ : Σ p : Tree × List Char, Form size text p.1 p.2) = ⟨(t', rest'), d'⟩
  | _, _, _, _, .list d, d' => by
    cases d' with
    | list d' =>
      cases Forms.eq_of_closed d d' (.inr ⟨_, rfl⟩) (.inr ⟨_, rfl⟩)
      rfl
    | word word htext hne hword => exact absurd (head_of_word htext hne hword) (by decide)
  | _, _, _, _, .string q, d' => by
    cases d' with
    | string q' =>
      cases Quoted.eq q q'
      rfl
    | word word htext hne hword => exact absurd (head_of_word htext hne hword) (by decide)
  | _, _, _, _, .word word htext hne hword hends hspells, d' => by
    cases d' with
    | list | string => exact absurd (head_of_word htext hne hword) (by decide)
    | word word' htext' hne' hword' hends' hspells' =>
      obtain ⟨rfl, rfl⟩ := run_unique hword hends hword' hends' (htext.symm.trans htext')
      obtain rfl := hspells.eq hspells'
      rfl

/-- **Forms come apart in one way**, up to an end of the text or of the list that they are in. -/
theorem Forms.eq_of_closed {text : List Char} : ∀ {ts ts' : List Tree} {rest rest' : List Char}
    (d : Forms size text ts rest) (d' : Forms size text ts' rest'), Closed rest → Closed rest' →
    (⟨(ts, rest), d⟩ : Σ p : List Tree × List Char, Forms size text p.1 p.2) = ⟨(ts', rest'), d'⟩
  | _, _, _, _, .last g, d', h, h' => by
    cases d' with
    | last g' =>
      cases g.eq_of_noGap g' h.noGap h'.noGap
      rfl
    | next g' f' d' =>
      cases g.eq_of_noGap g' h.noGap f'.opens.noGap
      exact absurd h f'.opens.not_closed
  | _, _, _, _, .next g f d, d', h, h' => by
    cases d' with
    | last g' =>
      cases g.eq_of_noGap g' f.opens.noGap h'.noGap
      exact absurd h' f.opens.not_closed
    | next g' f' d' =>
      cases g.eq_of_noGap g' f.opens.noGap f'.opens.noGap
      cases Form.eq f f'
      cases Forms.eq_of_closed d d' h h'
      rfl

end

end Grammar

end Kiln
