import Kiln.Proofs.Tree.Grammar
import Kiln.Proofs.Template.Reading
import Mathlib.Data.List.TakeWhile
/-!
# Scanning follows the grammar

`scan` splits a text as the grammar does. Words and strings are read as they come apart
(`Grammar.wordAtom_iff`, `Grammar.Quoted.scanString_eq`), and a text that is scanned without an
error is one that falls into the tokens that were found (`Grammar.Lexes.scan_eq`,
`Grammar.lexes_of_scan`). Places are told by what is left of the text, so that no place has to be
carried along.
-/

namespace Kiln

namespace Grammar

/-! ## Words -/

/-- Digit by digit, the value of a run of digits is what the digits spell. -/
theorem digitsValue_eq (digits : List Char) : digitsValue digits = decimal digits := by
  have hfold : ∀ n, digits.foldl (fun n d => 10 * n + (d.toNat - '0'.toNat)) n =
      n * 10 ^ digits.length + decimal digits := by
    induction digits with
    | nil => intro n; simp [decimal]
    | cons d digits ih =>
      intro n
      rw [List.foldl_cons, ih, decimal, decimal, List.reverse_cons, List.map_append,
        Nat.ofDigits_append, List.length_map, List.length_reverse, List.length_cons,
        List.map_cons, List.map_nil,
        Nat.ofDigits_singleton, Nat.pow_succ]
      ring
  simpa [digitsValue] using hfold 0

theorem startsAsNumber_iff {word : List Char} : startsAsNumber word = true ↔
    OpensAsNumber word := by
  fun_cases startsAsNumber word with
  | case1 d rest =>
    constructor
    · exact fun h => ⟨d, rest, h, .inr rfl⟩
    · rintro ⟨d', rest', hd, h | h⟩
      · cases h
        exact absurd hd (by decide)
      · cases h
        exact hd
  | case2 d rest hno =>
    constructor
    · exact fun h => ⟨d, rest, h, .inl rfl⟩
    · rintro ⟨d', rest', hd, h | h⟩
      · cases h
        exact hd
      · cases h
        exact absurd rfl (hno d' rest' rfl)
  | case3 =>
    constructor
    · exact fun h => absurd h (by decide)
    · rintro ⟨d', rest', hd, h | h⟩ <;> cases h

theorem isDigit_ne_minus {c : Char} (h : c.isDigit = true) : c ≠ '-' := by
  rintro rfl
  exact absurd h (by decide)

theorem unsigned_of_digits {digits : List Char} (hdigits : ∀ d ∈ digits, d.isDigit = true) :
    unsigned digits = digits ∧ numberValue digits = decimal digits := by
  have hminus : ∀ ds, digits ≠ '-' :: ds := by
    rintro ds rfl
    exact isDigit_ne_minus (hdigits '-' List.mem_cons_self) rfl
  constructor
  · fun_cases unsigned digits with
    | case1 ds => exact absurd rfl (hminus ds)
    | case2 => rfl
  · fun_cases numberValue digits with
    | case1 ds => exact absurd rfl (hminus ds)
    | case2 => rw [digitsValue_eq]

theorem isNumber_of_digits {digits : List Char} (hne : digits ≠ [])
    (hdigits : ∀ d ∈ digits, d.isDigit = true) :
    isNumber digits = true ∧ isNumber ('-' :: digits) = true := by
  have hempty : digits.isEmpty = false := by simpa using hne
  have hall : digits.all Char.isDigit = true := List.all_eq_true.2 hdigits
  constructor
  · rw [isNumber, (unsigned_of_digits hdigits).1, hempty, hall]
    rfl
  · rw [isNumber, unsigned, hempty, hall]
    rfl

/-- A number is a run of digits, or a minus and such a run. -/
theorem digits_of_isNumber {word : List Char} (h : isNumber word = true) : ∃ digits, digits ≠ [] ∧
    (∀ d ∈ digits, d.isDigit = true) ∧ (word = digits ∨ word = '-' :: digits) := by
  rw [isNumber, Bool.and_eq_true, List.all_eq_true] at h
  refine ⟨unsigned word, by simpa using h.1, h.2, ?_⟩
  fun_cases unsigned word with
  | case1 ds => exact .inr rfl
  | case2 => exact .inl rfl

/-- A word that is a number, with a value that 64 bits can hold, is read as that value. -/
theorem wordAtom_of_isNumber {word : List Char} {n : Int64} (hopens : OpensAsNumber word)
    (hnumber : isNumber word = true) (hvalue : n.toInt = numberValue word) :
    wordAtom word = .ok (.int n) := by
  have hlow := n.minValue_le_toInt
  have hhigh := n.toInt_le
  rw [wordAtom, if_pos (startsAsNumber_iff.2 hopens), hnumber, ← hvalue, if_neg (by decide),
    if_neg (by omega), if_neg (by omega), Int64.ofInt_toInt]

/-- A number is spelled by its value, if 64 bits can hold it. -/
theorem spells_of_isNumber {word : List Char} (hnumber : isNumber word = true)
    (hlow : -2 ^ 63 ≤ numberValue word) (hhigh : numberValue word < 2 ^ 63) :
    Spells word (.int (.ofInt (numberValue word))) := by
  have hvalue : (Int64.ofInt (numberValue word)).toInt = numberValue word :=
    Int64.toInt_ofInt_of_le hlow hhigh
  obtain ⟨digits, hne, hdigits, rfl | rfl⟩ := digits_of_isNumber hnumber
  · exact .positive hne hdigits (hvalue.trans (unsigned_of_digits hdigits).2)
  · refine .negative hne hdigits (hvalue.trans ?_)
    rw [numberValue, digitsValue_eq]

theorem spells_of_wordAtom {word : List Char} {a : Atom} (h : wordAtom word = .ok a) :
    Spells word a := by
  rw [wordAtom] at h
  split at h
  · split at h
    · cases h
    · rename_i hnumber
      split at h
      · cases h
      · rename_i hlow
        split at h
        · cases h
        · rename_i hhigh
          cases h
          exact spells_of_isNumber (by simpa using hnumber) (Int.not_lt.1 hlow)
            (Int.lt_add_one_of_le (Int.not_lt.1 hhigh))
  · rename_i hopens
    split at h
    · rename_i hyes
      cases h
      exact hyes ▸ .yes
    · rename_i hyes
      split at h
      · rename_i hno
        cases h
        exact hno ▸ .no
      · rename_i hno
        cases h
        exact .name (fun hword => hopens (startsAsNumber_iff.2 hword)) hyes hno

/-- **A word is read as the atom it spells**, and it is read as none if it spells none. -/
theorem wordAtom_iff {word : List Char} {a : Atom} : wordAtom word = .ok a ↔ Spells word a := by
  constructor
  · exact spells_of_wordAtom
  · intro h
    cases h with
    | positive hne hdigits hvalue =>
      exact wordAtom_of_isNumber (opensAsNumber_of_digits hne hdigits)
        (isNumber_of_digits hne hdigits).1 (hvalue.trans (unsigned_of_digits hdigits).2.symm)
    | negative hne hdigits hvalue =>
      refine wordAtom_of_isNumber (opensAsNumber_of_minus hne hdigits)
        (isNumber_of_digits hne hdigits).2 (hvalue.trans ?_)
      rw [numberValue, digitsValue_eq]
    | yes => rfl
    | no => rfl
    | name hnumber hyes hno =>
      rw [wordAtom, if_neg fun h => hnumber (startsAsNumber_iff.1 h)]
      exact (if_neg hyes).trans (if_neg hno)

/-! ## Strings -/

theorem unescape?_iff {c d : Char} : unescape? c = some d ↔ (c, d) ∈ escapes := by
  constructor
  · intro h
    unfold unescape? at h
    split at h <;> cases h <;> decide
  · intro h
    simp only [escapes, List.mem_cons, Prod.mk.injEq, List.not_mem_nil, or_false] at h
    rcases h with ⟨rfl, rfl⟩ | ⟨rfl, rfl⟩ | ⟨rfl, rfl⟩ | ⟨rfl, rfl⟩ | ⟨rfl, rfl⟩ | ⟨rfl, rfl⟩
      <;> rfl

theorem Quoted.suffix {text meant rest : List Char} (q : Quoted text meant rest) :
    rest <:+ text := by
  induction q with
  | close => exact List.suffix_cons _ _
  | escape c d hescape q ih => exact ih.trans ((List.suffix_cons _ _).trans (List.suffix_cons _ _))
  | plain c hquote hslash q ih => exact ih.trans (List.suffix_cons _ _)

theorem Quoted.byteCount_lt {text meant rest : List Char} (q : Quoted text meant rest) :
    byteCount rest < byteCount text := by
  induction q with
  | close rest =>
    rw [byteCount_cons]
    have := Char.utf8Size_pos '"'
    omega
  | escape c d hescape q ih =>
    rw [byteCount_cons, byteCount_cons]
    omega
  | plain c hquote hslash q ih =>
    rw [byteCount_cons]
    omega

/-- A string is read as it comes apart. -/
theorem Quoted.scanString_eq {text meant rest : List Char} (start : Nat)
    (q : Quoted text meant rest) :
    ∀ pos, ∃ stop, stop + byteCount rest = pos + byteCount text ∧
      scanString start pos text = .ok (meant, stop, rest) := by
  induction q with
  | close rest =>
    intro pos
    refine ⟨pos + 1, ?_, by rw [scanString]⟩
    rw [byteCount_cons, show Char.utf8Size '"' = 1 from rfl]
    omega
  | escape c d hescape q ih =>
    intro pos
    obtain ⟨stop, hstop, hscan⟩ := ih (pos + 1 + c.utf8Size)
    refine ⟨stop, ?_, ?_⟩
    · rw [hstop, byteCount_cons, byteCount_cons, show Char.utf8Size '\\' = 1 from rfl]
      omega
    · rw [scanString, unescape?_iff.2 hescape]
      dsimp only
      rw [hscan]
      rfl
  | plain c hquote hslash q ih =>
    intro pos
    obtain ⟨stop, hstop, hscan⟩ := ih (pos + c.utf8Size)
    refine ⟨stop, ?_, ?_⟩
    · rw [hstop, byteCount_cons]
      omega
    · rw [scanString, hscan]
      · rfl
      · exact hquote
      · exact fun heq => absurd heq hslash
      · exact fun _ _ heq => absurd heq hslash

/-- What is read as a string comes apart like one. -/
theorem quoted_of_scanString {start pos : Nat} {text : List Char} {r : List Char × Nat × List Char}
    (h : scanString start pos text = .ok r) : Nonempty (Quoted text r.1 r.2.2) := by
  fun_induction scanString start pos text generalizing r with
  | case1 | case3 | case4 => cases h
  | case2 pos rest =>
    cases h
    exact ⟨.close _⟩
  | case5 pos c rest d hd ih =>
    rcases hscan : scanString start (pos + 1 + c.utf8Size) rest with e | r'
    · rw [hscan] at h
      cases h
    · rw [hscan] at h
      cases h
      obtain ⟨q⟩ := ih hscan
      exact ⟨.escape c d (unescape?_iff.1 hd) q⟩
  | case6 pos c rest hquote hlast hslash ih =>
    rcases hscan : scanString start (pos + c.utf8Size) rest with e | r'
    · rw [hscan] at h
      cases h
    · rw [hscan] at h
      cases h
      obtain ⟨q⟩ := ih hscan
      refine ⟨.plain c hquote ?_ q⟩
      -- a backslash would be the last character, or have one behind it
      rintro rfl
      cases rest with
      | nil => exact hlast rfl rfl
      | cons c rest => exact hslash c rest rfl rfl

/-! ## Lexemes -/

/-- What is behind a piece of a text starts where the piece ends. -/
theorem place_append {size : Nat} (piece : List Char) {rest : List Char}
    (h : byteCount (piece ++ rest) ≤ size) :
    place size rest = place size (piece ++ rest) + byteCount piece := by
  rw [byteCount_append] at h
  rw [place, place, byteCount_append]
  omega

theorem place_cons {size : Nat} {c : Char} {rest : List Char} (h : byteCount (c :: rest) ≤ size) :
    place size rest = place size (c :: rest) + c.utf8Size :=
  place_append [c] h

theorem place_eq {size pos : Nat} {text : List Char} (h : pos + byteCount text = size) :
    place size text = pos := by
  rw [place]
  omega

theorem AtLineEnd.endsComment {rest : List Char} (h : AtLineEnd rest) :
    endsComment rest = true := by
  cases h <;> rfl

/-- What a comment may end before, given that it stops there. -/
theorem atLineEnd_of_endsComment {rest : List Char} (h : Kiln.endsComment rest = true)
    (hstop : ∀ c, rest.head? = some c → inComment c = false) : AtLineEnd rest := by
  unfold Kiln.endsComment at h
  split at h
  · exact .pair _
  · cases h
  · rename_i hpair hreturn
    cases rest with
    | nil => exact .finish
    | cons c rest =>
      have hc : ¬(c ≠ '\r' ∧ c ≠ '\n') := by
        rw [← inComment_iff, hstop c rfl]
        decide
      by_cases hnewline : c = '\n'
      · exact hnewline ▸ .newline rest
      · exact absurd ⟨fun heq => hreturn rest (heq ▸ rfl), hnewline⟩ hc

theorem head_dropWhile {p : Char → Bool} (cs : List Char) :
    ∀ c, (cs.dropWhile p).head? = some c → p c = false := by
  intro c hc
  have := List.head?_dropWhile_not p cs
  rw [hc] at this
  simpa using this

/-- What is left of a text has no more bytes than the text. -/
theorem byteCount_le_of_suffix {text rest : List Char} (h : rest <:+ text) :
    byteCount rest ≤ byteCount text := by
  obtain ⟨piece, rfl⟩ := h
  rw [byteCount_append]
  exact Nat.le_add_left _ _

theorem Gap.suffix {text rest : List Char} (g : Gap text rest) : rest <:+ text := by
  induction g with
  | none => exact List.suffix_rfl
  | blank c hblank g ih => exact ih.trans (List.suffix_cons _ _)
  | comment body htext hbody hend g ih =>
    rw [htext]
    exact ih.trans ((List.suffix_append _ _).trans (List.suffix_cons _ _))

theorem Gap.byteCount_le {text rest : List Char} (g : Gap text rest) :
    byteCount rest ≤ byteCount text :=
  byteCount_le_of_suffix g.suffix

/-- Blanks and comments are skipped. -/
theorem Gap.scan_eq {size : Nat} {text rest : List Char} (g : Gap text rest)
    (hsize : byteCount text ≤ size) :
    scan (place size text) text = scan (place size rest) rest := by
  induction g with
  | none => rfl
  | @blank text rest c hblank g ih =>
    have hc : c.utf8Size = 1 := by rcases hblank with rfl | rfl | rfl | rfl <;> rfl
    rw [scan, if_pos (isBlank_iff.2 hblank), ← hc, ← place_cons hsize]
    exact ih (Nat.le_trans (byteCount_cons c text ▸ Nat.le_add_left _ _) hsize)
  | @comment text after rest body htext hbody hend g ih =>
    subst htext
    obtain ⟨hbefore, hafter⟩ := run_append (fun c hc => inComment_iff.2 (hbody c hc)) hend.stops
    have hplace : place size after = place size (';' :: (body ++ after)) + 1 + byteCount body := by
      rw [Nat.add_assoc]
      exact place_append (';' :: body) hsize
    rw [scan, if_neg (by decide), if_pos rfl]
    dsimp only
    rw [hbefore, hafter, if_pos hend.endsComment, ← hplace]
    rw [byteCount_cons, byteCount_append] at hsize
    exact ih (by omega)

variable (size : Nat)

/-- A parenthesis or an atom at the front of a text, and the text behind it. -/
inductive Piece : List Char → Lexeme → List Char → Prop
  | opening (rest : List Char) : Piece ('(' :: rest) .opening rest
  | closing (rest : List Char) : Piece (')' :: rest) .closing rest
  | atom {text rest : List Char} {a : Atom} {s : Span} (f : Form size text (.leaf a s) rest) :
      Piece text (.atom a) rest

/-- The tokens that a text falls into. -/
inductive Lexes : List Char → List Token → Prop
  | last {text : List Char} (g : Gap text []) : Lexes text []
  | next {text start after : List Char} {lexeme : Lexeme} {tokens : List Token} (g : Gap text start)
      (hpiece : Piece size start lexeme after) (h : Lexes after tokens) :
      Lexes text (⟨lexeme, stretch size start after⟩ :: tokens)

variable {size}

theorem Piece.byteCount_lt {text rest : List Char} {lexeme : Lexeme}
    (h : Piece size text lexeme rest) :
    byteCount rest < byteCount text := by
  cases h with
  | opening | closing =>
    rw [byteCount_cons]
    have := Char.utf8Size_pos
    grind
  | atom f =>
    cases f with
    | string q =>
      rw [byteCount_cons]
      have := q.byteCount_lt
      omega
    | word word htext hne hword =>
      subst htext
      cases word with
      | nil => exact absurd rfl hne
      | cons c word =>
        rw [byteCount_append, byteCount_cons]
        have := c.utf8Size_pos
        omega

/-- **A word is scanned as a whole**: it is the atom that it spells, or nothing is read from it
on. -/
theorem scan_word {word rest : List Char} (hne : word ≠ [])
    (hword : ∀ c ∈ word, isSymbolChar c = true) (hends : WordEnds rest) (pos : Nat) :
    (∀ a, wordAtom word = .ok a → scan pos (word ++ rest) =
      (scan (pos + byteCount word) rest).cons ⟨.atom a, ⟨pos, pos + byteCount word⟩⟩) ∧
    ∀ f, wordAtom word = .error f →
      scan pos (word ++ rest) = .failed ⟨f, ⟨pos, pos + byteCount word⟩⟩ := by
  obtain ⟨c, word, rfl⟩ := List.exists_cons_of_ne_nil hne
  have hc : isSymbolChar c = true := hword c List.mem_cons_self
  obtain ⟨hblank, hcomment, hopening, hclosing, hquote⟩ := plain_of_isSymbolChar hc
  obtain ⟨hbefore, hafter⟩ := run_append (fun d hd => hword d (List.mem_cons_of_mem c hd)) hends
  rw [List.cons_append, scan_eq_scanStep, scanStep, hblank, if_neg (by decide), if_neg hcomment,
    if_neg hopening, if_neg hclosing, if_neg hquote, if_pos hc]
  dsimp only
  rw [hbefore, hafter]
  constructor
  · intro a hatom
    rw [hatom]
  · intro f hatom
    rw [hatom]

theorem Piece.scan_eq {text rest : List Char} {lexeme : Lexeme} (h : Piece size text lexeme rest)
    (hsize : byteCount text ≤ size) : scan (place size text) text =
      (scan (place size rest) rest).cons ⟨lexeme, stretch size text rest⟩ := by
  cases h with
  | opening =>
    have hplace : place size rest = place size ('(' :: rest) + 1 := place_cons hsize
    rw [stretch, hplace, scan, if_neg (by decide), if_neg (by decide), if_pos rfl]
  | closing =>
    have hplace : place size rest = place size (')' :: rest) + 1 := place_cons hsize
    rw [stretch, hplace, scan, if_neg (by decide), if_neg (by decide),
      if_neg (by decide), if_pos rfl]
  | atom f =>
    cases f with
    | @string text meant rest q =>
      rw [byteCount_cons, show Char.utf8Size '"' = 1 from rfl] at hsize
      have hrest : byteCount rest < byteCount text := q.byteCount_lt
      obtain ⟨stop, hstop, hstring⟩ :=
        q.scanString_eq (place size ('"' :: text)) (place size ('"' :: text) + 1)
      have hplace : place size rest = stop := by
        rw [place, byteCount_cons, show Char.utf8Size '"' = 1 from rfl] at hstop
        rw [place]
        omega
      rw [stretch, hplace, scan_eq_scanStep, scanStep, if_neg (by decide), if_neg (by decide),
        if_neg (by decide), if_neg (by decide), if_pos rfl, hstring]
    | word word htext hne hword hends hspells =>
      subst htext
      have hplace : place size rest = place size (word ++ rest) + byteCount word :=
        place_append word hsize
      rw [stretch, hplace, (scan_word hne hword hends _).1 _ (wordAtom_iff.2 hspells)]

/-- **A text is scanned as it falls into tokens**, and without an error. -/
theorem Lexes.scan_eq {text : List Char} {tokens : List Token} (h : Lexes size text tokens)
    (hsize : byteCount text ≤ size) : scan (place size text) text = ⟨tokens, none⟩ := by
  induction h with
  | last g =>
    rw [g.scan_eq hsize, scan]
    rfl
  | next g hpiece h ih =>
    have hstart := Nat.le_trans g.byteCount_le hsize
    rw [g.scan_eq hsize, hpiece.scan_eq hstart,
      ih (Nat.le_trans (Nat.le_of_lt hpiece.byteCount_lt) hstart)]
    rfl

theorem Lexes.blank {text : List Char} {tokens : List Token} {c : Char} (hblank : isBlank c = true)
    (h : Lexes size text tokens) : Lexes size (c :: text) tokens := by
  cases h with
  | last g => exact .last (.blank c (isBlank_iff.1 hblank) g)
  | next g hpiece h => exact .next (.blank c (isBlank_iff.1 hblank) g) hpiece h

theorem Lexes.comment {text body after : List Char} {tokens : List Token}
    (htext : text = ';' :: (body ++ after)) (hbody : ∀ c ∈ body, inComment c = true)
    (hend : AtLineEnd after) (h : Lexes size after tokens) : Lexes size text tokens := by
  have hbody' : ∀ c ∈ body, c ≠ '\r' ∧ c ≠ '\n' := fun c hc => inComment_iff.1 (hbody c hc)
  cases h with
  | last g => exact .last (.comment body htext hbody' hend g)
  | next g hpiece h => exact .next (.comment body htext hbody' hend g) hpiece h

/-- One token more, with no blank before it. -/
theorem Lexes.piece {pos stop : Nat} {text after : List Char} {lexeme : Lexeme}
    {tokens : List Token} (hpos : pos + byteCount text = size)
    (hstop : stop + byteCount after = size) (hpiece : Piece size text lexeme after)
    (h : Lexes size after tokens) :
    Lexes size text (⟨lexeme, ⟨pos, stop⟩⟩ :: tokens) := by
  have hnext := Lexes.next (.none text) hpiece h
  rwa [stretch, place_eq hpos, place_eq hstop] at hnext

/-- **What is scanned without an error falls into the tokens that were found.** -/
theorem lexes_of_scan {pos : Nat} {text : List Char} (hpos : pos + byteCount text = size)
    (h : (scan pos text).error? = none) : Lexes size text (scan pos text).tokens := by
  -- the places that the scanner counts are told by what is left of the text
  fun_induction scan pos text with
  | case1 pos => exact .last (.none [])
  | case2 pos c rest hblank ih =>
    have hc : c.utf8Size = 1 := by rcases isBlank_iff.1 hblank with rfl | rfl | rfl | rfl <;> rfl
    rw [byteCount_cons, hc] at hpos
    exact (ih (by omega) h).blank hblank
  | case3 pos rest after hends hblank ih =>
    have hrest : rest.takeWhile inComment ++ after = rest := List.takeWhile_append_dropWhile
    have hbytes := congrArg byteCount hrest
    rw [byteCount_append] at hbytes
    rw [byteCount_cons, show Char.utf8Size ';' = 1 from rfl] at hpos
    exact (ih (by omega) h).comment (congrArg (';' :: ·) hrest.symm)
      (fun c hc => List.mem_takeWhile_imp hc) (atLineEnd_of_endsComment hends (head_dropWhile rest))
  | case5 pos rest _ _ ih | case6 pos rest _ _ _ ih =>
    have hafter : pos + 1 + byteCount rest = size := by
      rw [← hpos, byteCount_cons, Nat.add_assoc]
      rfl
    exact (ih hafter h).piece hpos hafter (by constructor)
  | case8 pos rest r hstring _ _ _ _ ih =>
    obtain ⟨q⟩ := quoted_of_scanString hstring
    have hafter : r.2.1 + byteCount r.2.2 = size := by
      obtain ⟨stop, hstop, hagain⟩ := q.scanString_eq pos (pos + 1)
      rw [hstring, Except.ok.injEq] at hagain
      rw [hagain, hstop, ← hpos, byteCount_cons, Nat.add_assoc]
      rfl
    exact (ih hafter h).piece hpos hafter (.atom (.string q))
  | case10 pos c rest _ _ _ _ _ hc word stop a hword ih =>
    have hrest : word ++ rest.dropWhile isSymbolChar = c :: rest :=
      congrArg (c :: ·) List.takeWhile_append_dropWhile
    have hafter : stop + byteCount (rest.dropWhile isSymbolChar) = size := by
      rw [← hpos, ← hrest, byteCount_append, ← Nat.add_assoc]
    refine (ih hafter h).piece hpos hafter (.atom (.word word hrest.symm (List.cons_ne_nil _ _) ?_
      (head_dropWhile rest) (wordAtom_iff.1 hword)))
    intro d hd
    rcases List.mem_cons.1 hd with rfl | hd
    · exact hc
    · exact List.mem_takeWhile_imp hd
  | case4 | case7 | case9 | case11 => cases h

end Grammar
end Kiln
