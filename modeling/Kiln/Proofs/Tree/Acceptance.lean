import Kiln.Proofs.Tree.Lexing
import Kiln.Tree.Reader
/-!
# The reader accepts its grammar

Every tree is spelled by tokens (`Tree.tokens`), and `assemble` makes trees of just the tokens that
spell them. With what is known of scanning, a text is read as forms exactly when it derives them
(`Grammar.readForms_exact`).
-/

namespace Kiln

namespace Tree

mutual

/-- The tokens that a tree is written with, at the places that its spans tell. -/
def tokens : Tree → List Token
  | leaf a s => [⟨.atom a, s⟩]
  | node items s =>
    ⟨.opening, ⟨s.start, s.start + 1⟩⟩ :: (tokensAll items ++ [⟨.closing, ⟨s.stop - 1, s.stop⟩⟩])

/-- The tokens of several trees, from left to right. -/
def tokensAll : List Tree → List Token
  | [] => []
  | t :: ts => t.tokens ++ tokensAll ts

end

theorem tokensAll_append (ts us : List Tree) : tokensAll (ts ++ us) = tokensAll ts ++
    tokensAll us := by
  induction ts with
  | nil => rfl
  | cons t ts ih => rw [List.cons_append, tokensAll, tokensAll, ih, List.append_assoc]

end Tree

namespace Grammar

/-! ## Assembling -/

/-- Trees are assembled one after the other, if each of them is. -/
theorem assemble_tokensAll {error? : Option SyntaxError} {ts : List Tree}
    (h : ∀ t ∈ ts, ∀ more levels items,
      assemble error? (t.tokens ++ more) levels items = assemble error? more levels (t :: items)) :
    ∀ more levels items, assemble error? (Tree.tokensAll ts ++ more) levels items =
      assemble error? more levels (ts.reverse ++ items) := by
  induction ts with
  | nil => exact fun more levels items => rfl
  | cons t ts ih =>
    intro more levels items
    rw [Tree.tokensAll, List.append_assoc, h t List.mem_cons_self,
      ih fun u hu => h u (List.mem_cons_of_mem t hu), List.reverse_cons, List.append_assoc,
      List.singleton_append]

/-- **A tree is assembled from the tokens it is written with**, whatever is still open around it. -/
theorem assemble_tokens {error? : Option SyntaxError} (t : Tree) : ∀ more levels items,
    assemble error? (t.tokens ++ more) levels items = assemble error? more levels (t :: items) := by
  induction t using Tree.inductItems with
  | leaf a s => exact fun more levels items => rfl
  | node inner s ih =>
    intro more levels items
    rw [Tree.tokens, List.cons_append, List.append_assoc, assemble, assemble_tokensAll ih,
      List.append_nil, List.singleton_append, assemble, List.reverse_reverse]

/-- The tokens that were taken when these lists are open and these items have been read, last item
first. -/
def consumed : List OpenList → List Tree → List Token
  | [], items => Tree.tokensAll items.reverse
  | level :: levels, items =>
    consumed levels level.enclosing ++
      ⟨.opening, ⟨level.start, level.start + 1⟩⟩ :: Tree.tokensAll items.reverse

theorem consumed_cons (levels : List OpenList) (items : List Tree) (t : Tree) :
    consumed levels (t :: items) = consumed levels items ++ t.tokens := by
  have hlast : Tree.tokensAll [t] = t.tokens := by
    rw [Tree.tokensAll, Tree.tokensAll, List.append_nil]
  cases levels with
  | nil => rw [consumed, consumed, List.reverse_cons, Tree.tokensAll_append, hlast]
  | cons level levels =>
    rw [consumed, consumed, List.reverse_cons, Tree.tokensAll_append, hlast, List.append_assoc,
      List.cons_append]

/-- A parenthesis takes one byte. -/
def UnitParen (token : Token) : Prop :=
  (∃ a, token.lexeme = .atom a) ∨ token.span.stop = token.span.start + 1

/-- Nothing is assembled from a text with an error in it. -/
theorem error_of_assemble {error? : Option SyntaxError} {tokens : List Token}
    {levels : List OpenList} {items forms : List Tree}
    (h : assemble error? tokens levels items = .ok forms) : error? = none := by
  fun_induction assemble error? tokens levels items with
  | case1 | case3 | case5 => cases h
  | case2 items hnone => exact hnone
  | case4 _ _ _ _ ih | case6 _ _ _ _ _ ih | case7 _ _ _ _ _ ih => exact ih h

/-- **Assembled trees are written with the tokens that were taken.** -/
theorem tokens_of_assemble {error? : Option SyntaxError} {tokens : List Token}
    {levels : List OpenList} {items forms : List Tree} (hparen : ∀ token ∈ tokens, UnitParen token)
    (h : assemble error? tokens levels items = .ok forms) :
    consumed levels items ++ tokens = Tree.tokensAll forms := by
  -- each step moves one token from those that are left to those that were taken
  fun_induction assemble error? tokens levels items with
  | case1 | case3 | case5 => cases h
  | case2 items =>
    cases h
    exact List.append_nil _
  | case4 s tokens levels items ih =>
    have htokens := ih (fun token ht => hparen token (List.mem_cons_of_mem _ ht)) h
    rcases hparen _ List.mem_cons_self with ⟨a, ha⟩ | hunit
    · cases ha
    · obtain ⟨start, stop⟩ := s
      obtain rfl : stop = start + 1 := hunit
      rw [← htokens, consumed, List.append_assoc]
      rfl
  | case6 s tokens level levels items ih =>
    have htokens := ih (fun token ht => hparen token (List.mem_cons_of_mem _ ht)) h
    rcases hparen _ List.mem_cons_self with ⟨a, ha⟩ | hunit
    · cases ha
    · obtain ⟨start, stop⟩ := s
      obtain rfl : stop = start + 1 := hunit
      rw [← htokens, consumed, consumed_cons, Tree.tokens]
      simp only [List.append_assoc, List.cons_append, List.nil_append, Nat.add_sub_cancel]
  | case7 a s tokens levels items ih =>
    have htokens := ih (fun token ht => hparen token (List.mem_cons_of_mem _ ht)) h
    rwa [consumed_cons, List.append_assoc] at htokens

/-! ## Trees and the tokens of a text -/

variable {size : Nat}

theorem Lexes.unitParen {text : List Char} {tokens : List Token} (h : Lexes size text tokens)
    (hsize : byteCount text ≤ size) : ∀ token ∈ tokens, UnitParen token := by
  induction h with
  | last g => exact fun token ht => absurd ht List.not_mem_nil
  | @next text start after lexeme tokens g hpiece h ih =>
    have hstart : byteCount start ≤ size := Nat.le_trans g.byteCount_le hsize
    intro token ht
    rcases List.mem_cons.1 ht with rfl | ht
    · cases hpiece with
      | opening => exact .inr (place_cons hstart)
      | closing => exact .inr (place_cons hstart)
      | atom f => exact .inl ⟨_, rfl⟩
    · exact ih (Nat.le_trans (Nat.le_of_lt hpiece.byteCount_lt) hstart) token ht

theorem Lexes.gap {text start : List Char} {tokens : List Token} (g : Gap text start)
    (h : Lexes size start tokens) : Lexes size text tokens := by
  induction g with
  | none => exact h
  | blank c hblank g ih => exact (ih h).blank (isBlank_iff.2 hblank)
  | comment body htext hbody hend g ih =>
    exact (ih h).comment htext (fun c hc => inComment_iff.2 (hbody c hc)) hend

mutual

theorem Form.suffix : ∀ {text rest : List Char} {t : Tree}, Form size text t rest → rest <:+ text
  | _, _, _, .list d => ((List.suffix_cons _ _).trans d.suffix).trans (List.suffix_cons _ _)
  | _, _, _, .string q => q.suffix.trans (List.suffix_cons _ _)
  | _, _, _, .word _ htext _ _ _ _ => htext ▸ List.suffix_append _ _

theorem Forms.suffix :
    ∀ {text rest : List Char} {ts : List Tree}, Forms size text ts rest → rest <:+ text
  | _, _, _, .last g => g.suffix
  | _, _, _, .next g f d => d.suffix.trans (f.suffix.trans g.suffix)

end

theorem Form.byteCount_le {text rest : List Char} {t : Tree} (f : Form size text t rest) :
    byteCount rest ≤ byteCount text := byteCount_le_of_suffix f.suffix

theorem Forms.byteCount_le {text rest : List Char} {ts : List Tree} (d : Forms size text ts rest) :
    byteCount rest ≤ byteCount text := byteCount_le_of_suffix d.suffix

mutual

/-- A form that the text has falls into its tokens. -/
theorem Form.lexes :
    ∀ {text rest : List Char} {t : Tree} {more : List Token}, Form size text t rest →
    byteCount text ≤ size → Lexes size rest more → Lexes size text (t.tokens ++ more)
  | _, rest, _, more, @Form.list _ text _ items d, hsize, h => by
    have htext : byteCount text ≤ size := by
      rw [byteCount_cons] at hsize
      omega
    have hclose : byteCount (')' :: rest) ≤ size := Nat.le_trans d.byteCount_le htext
    have hinner := d.lexes htext (.next (.none _) (.closing rest) h)
    have hwhole := Lexes.next (.none _) (.opening text) hinner
    have hstop : place size rest - 1 = place size (')' :: rest) := by
      rw [place_cons hclose]
      rfl
    rw [Tree.tokens, stretch]
    dsimp only
    rw [hstop, List.cons_append, List.append_assoc, List.singleton_append]
    rwa [stretch, place_cons hsize, stretch] at hwhole
  | _, _, _, _, .string q, _, h => .next (.none _) (.atom (.string q)) h
  | _, _, _, _, .word word htext hne hword hends hspells, _, h =>
    .next (.none _) (.atom (.word word htext hne hword hends hspells)) h

/-- Forms that the text has fall into their tokens. -/
theorem Forms.lexes : ∀ {text rest : List Char} {ts : List Tree} {more : List Token},
    Forms size text ts rest → byteCount text ≤ size → Lexes size rest more →
      Lexes size text (Tree.tokensAll ts ++ more)
  | _, _, _, _, .last g, _, h => h.gap g
  | _, _, _, more, .next g f d, hsize, h => by
    have hstart := Nat.le_trans g.byteCount_le hsize
    rw [Tree.tokensAll, List.append_assoc]
    exact (f.lexes hstart (d.lexes (Nat.le_trans f.byteCount_le hstart) h)).gap g

end

theorem Lexes.first {text : List Char} {token : Token} {tokens : List Token}
    (h : Lexes size text (token :: tokens)) : ∃ start after, Nonempty (Gap text start) ∧
      Piece size start token.lexeme after ∧ token.span = stretch size start after ∧
        Lexes size after tokens := by
  cases h with
  | next g hpiece h => exact ⟨_, _, ⟨g⟩, hpiece, rfl, h⟩

theorem Form.span_eq {text rest : List Char} {t : Tree} (f : Form size text t rest) :
    t.span = stretch size text rest := by
  cases f <;> rfl

/-- Forms are found one after the other, if each of them is. What is behind them may follow after a
gap. -/
theorem Lexes.forms {ts : List Tree} (hts : ∀ t ∈ ts, ∀ {text : List Char} {more : List Token},
      Lexes size text (t.tokens ++ more) → ∃ start after, Nonempty (Gap text start) ∧
        Nonempty (Form size start t after) ∧ Lexes size after more) :
    ∀ {text : List Char} {more : List Token}, Lexes size text (Tree.tokensAll ts ++ more) →
      ∃ last, Lexes size last more ∧ ∀ rest, Nonempty (Gap last rest) →
        Nonempty (Forms size text ts rest) := by
  induction ts with
  | nil => exact fun h => ⟨_, h, fun rest ⟨g⟩ => ⟨.last g⟩⟩
  | cons t ts ih =>
    intro text more h
    rw [Tree.tokensAll, List.append_assoc] at h
    obtain ⟨start, after, ⟨g⟩, ⟨f⟩, hafter⟩ := hts t List.mem_cons_self h
    obtain ⟨last, hlast, hforms⟩ := ih (fun u hu => hts u (List.mem_cons_of_mem t hu)) hafter
    refine ⟨last, hlast, fun rest hgap => ?_⟩
    obtain ⟨d⟩ := hforms rest hgap
    exact ⟨.next g f d⟩

/-- **Where a text falls into the tokens of a tree, it has a form that is the tree.** -/
theorem Lexes.form (t : Tree) : ∀ {text : List Char} {more : List Token},
    Lexes size text (t.tokens ++ more) → ∃ start after, Nonempty (Gap text start) ∧
      Nonempty (Form size start t after) ∧ Lexes size after more := by
  induction t using Tree.inductItems with
  | leaf a s =>
    intro text more h
    obtain ⟨start, after, hgap, hpiece, hspan, hmore⟩ := h.first
    cases hpiece with
    | atom f =>
      have hs : s = _ := hspan.trans f.span_eq.symm
      subst hs
      exact ⟨start, after, hgap, ⟨f⟩, hmore⟩
  | node items s ih =>
    intro text more h
    rw [Tree.tokens, List.cons_append, List.append_assoc] at h
    obtain ⟨start, inner, hgap, hopening, hstart, hinner⟩ := h.first
    obtain ⟨last, hlast, hforms⟩ := Lexes.forms ih hinner
    obtain ⟨close, after, hbefore, hclosing, hstop, hmore⟩ := hlast.first
    cases hopening
    cases hclosing
    obtain ⟨d⟩ := hforms _ hbefore
    have hs : s = stretch size ('(' :: inner) after :=
      congrArg₂ Span.mk (congrArg Span.start hstart) (congrArg Span.stop hstop)
    exact ⟨_, after, hgap, ⟨hs ▸ .list d⟩, hmore⟩

/-! ## Reading -/

/-- Forms that a text derives are read off it. -/
theorem readForms_of_derivation {text : String} {forms : List Tree} (d : Derivation text forms) :
    readForms text = .ok forms := by
  have hplace : place (byteCount text.toList) text.toList = 0 := Nat.sub_self _
  have hscan := (d.lexes (Nat.le_refl _) (.last (.none []))).scan_eq (Nat.le_refl _)
  rw [hplace, List.append_nil] at hscan
  have hall := @assemble_tokensAll none forms (fun t _ => assemble_tokens t) [] [] []
  rw [List.append_nil, List.append_nil] at hall
  rw [readForms, hscan]
  dsimp only
  rw [hall, assemble, List.reverse_reverse]

/-- Forms that are read off a text are derived by it. -/
theorem derivation_of_readForms {text : String} {forms : List Tree}
    (h : readForms text = .ok forms) :
    Nonempty (Derivation text forms) := by
  have herror : (scan 0 text.toList).error? = none := error_of_assemble h
  have hlexes := lexes_of_scan (Nat.zero_add (byteCount text.toList)) herror
  have htokens := tokens_of_assemble (hlexes.unitParen (Nat.le_refl _)) h
  rw [consumed, List.reverse_nil, Tree.tokensAll, List.nil_append] at htokens
  rw [htokens, ← List.append_nil (Tree.tokensAll forms)] at hlexes
  obtain ⟨last, hlast, hforms⟩ := Lexes.forms (fun t _ => Lexes.form t) hlexes
  cases hlast with
  | last g => exact hforms [] ⟨g⟩

/-- Whatever two derivations of a text say, they are the same. -/
theorem derivation_unique (text : String) : Subsingleton (Σ forms, Derivation text forms) := by
  constructor
  rintro ⟨forms, d⟩ ⟨forms', d'⟩
  cases Forms.eq_of_closed d d' (.inl rfl) (.inl rfl)
  rfl

/-- **A text is read as the forms that it derives**, which it does in one way at most; a text that
derives no forms is refused. -/
theorem readForms_exact (text : String) :
    (∀ forms, readForms text = .ok forms ↔ Nonempty (Derivation text forms)) ∧
    Subsingleton (Σ forms, Derivation text forms) ∧
    ((∃ e, readForms text = .error e) ↔ IsEmpty (Σ forms, Derivation text forms)) := by
  refine ⟨fun forms => ⟨derivation_of_readForms, fun ⟨d⟩ => readForms_of_derivation d⟩,
    derivation_unique text, ?_, ?_⟩
  · rintro ⟨e, he⟩
    refine ⟨fun ⟨forms, d⟩ => ?_⟩
    rw [readForms_of_derivation d] at he
    cases he
  · rintro ⟨hnone⟩
    rcases hread : readForms text with e | forms
    · exact ⟨e, rfl⟩
    · obtain ⟨d⟩ := derivation_of_readForms hread
      exact (hnone ⟨forms, d⟩).elim

end Grammar

end Kiln
