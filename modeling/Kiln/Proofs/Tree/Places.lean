import Kiln.Proofs.Text.Places
import Kiln.Proofs.Tree.Printing
/-!
# Places of what is read

All trees that are read off a text have their spans in it (`readForms_liesIn`), and so has the error
of a text that cannot be read (`error_of_readForms_liesIn`). For the trees this follows from how the
text derives them: each form is what stands before some rest of the text. A text with an error
derives nothing, so its error is followed through the scanner and the reader, which count the bytes
they have taken.
-/

namespace Kiln

namespace Tree

/-- The tree and all parts of it have their spans in the text. -/
def LiesIn (t : Tree) (text : String) : Prop := ∀ u : Tree, u.PartOf t → u.span.LiesIn text

variable {text : String} {t : Tree} {items : List Tree} {s : Span}

theorem LiesIn.span (h : t.LiesIn text) : t.span.LiesIn text := h t (.whole t)

theorem liesIn_leaf {a : Atom} : (leaf a s).LiesIn text ↔ s.LiesIn text := by
  constructor
  · exact LiesIn.span
  · rintro h u ⟨⟩
    exact h

theorem liesIn_node : (node items s).LiesIn text ↔ s.LiesIn text ∧ ∀ t ∈ items, t.LiesIn text := by
  constructor
  · exact fun h => ⟨h.span, fun t ht u hu => h u (.item ht hu)⟩
  · rintro ⟨hs, hitems⟩ u (_ | ⟨ht, hu⟩)
    · exact hs
    · exact hitems _ ht u hu

theorem LiesIn.items? (h : t.LiesIn text) (hitems : t.items? = some items) :
    ∀ u ∈ items, u.LiesIn text := by
  cases t with
  | leaf a s => cases hitems
  | node items s =>
    cases hitems
    exact (liesIn_node.1 h).2

theorem LiesIn.form? {word : String} (h : t.LiesIn text) (hform : t.form? word = some items) :
    ∀ u ∈ items, u.LiesIn text := by
  rcases t with ⟨a, s⟩ | ⟨_ | ⟨head, rest⟩, s⟩
  · cases hform
  · cases hform
  · rw [Tree.form?] at hform
    split at hform
    · cases hform
      exact fun u hu => (liesIn_node.1 h).2 u (List.mem_cons_of_mem head hu)
    · cases hform

/-- The symbols of a tree are in the text with it. -/
theorem LiesIn.symbols {t : Tree} : t.LiesIn text → ∀ p ∈ t.symbols, p.2.LiesIn text := by
  induction t using inductItems with
  | leaf a s =>
    intro h p hp
    cases a with
    | sym name =>
      cases List.mem_singleton.1 hp
      exact h.span
    | _ => cases hp
  | node items s ih =>
    intro h p hp
    rw [Tree.symbols, symbolsAll_eq_flatMap] at hp
    obtain ⟨t, ht, hp⟩ := List.mem_flatMap.1 hp
    exact ih t ht ((liesIn_node.1 h).2 t ht) p hp

end Tree

namespace Grammar

/-! ## What is derived -/

variable {whole : String}

/-- Where a rest of a text stands, the text goes on with it. -/
theorem continues_place {rest : List Char} (h : rest <:+ whole.toList) :
    Continues whole (place (byteCount whole.toList) rest) rest := by
  obtain ⟨before, hbefore⟩ := h
  refine ⟨before, hbefore.symm, place_eq ?_⟩
  rw [← hbefore, byteCount_append]

/-- What stands between two rests of a text has a span in it. -/
theorem stretch_liesIn {text rest : List Char} (htext : text <:+ whole.toList)
    (hrest : rest <:+ text) :
    (stretch (byteCount whole.toList) text rest).LiesIn whole :=
  (continues_place htext).liesIn (continues_place (hrest.trans htext))
    (Nat.sub_le_sub_left (byteCount_le_of_suffix hrest) _)

mutual

/-- A form has all of its spans in the text that derives it. -/
theorem Form.liesIn :
    ∀ {text rest : List Char} {t : Tree}, Form (byteCount whole.toList) text t rest →
    text <:+ whole.toList → t.LiesIn whole
  | _, _, _, .list d, htext => by
    refine Tree.liesIn_node.2 ⟨stretch_liesIn htext (Form.list d).suffix, ?_⟩
    exact d.liesIn ((List.suffix_cons _ _).trans htext)
  | _, _, _, .string q,
      htext => Tree.liesIn_leaf.2 (stretch_liesIn htext (q.suffix.trans (List.suffix_cons _ _)))
  | _, _, _, .word _ hword _ _ _ _,
      htext => Tree.liesIn_leaf.2 (stretch_liesIn htext (hword ▸ List.suffix_append _ _))

theorem Forms.liesIn :
    ∀ {text rest : List Char} {ts : List Tree}, Forms (byteCount whole.toList) text ts rest →
    text <:+ whole.toList → ∀ t ∈ ts, t.LiesIn whole
  | _, _, _, .last _, _ => fun t ht => absurd ht List.not_mem_nil
  | _, _, _, .next g f d, htext => by
    have hstart := g.suffix.trans htext
    exact List.forall_mem_cons.2 ⟨f.liesIn hstart, d.liesIn (f.suffix.trans hstart)⟩

end

/-- **Forms that are read have all of their spans in the text.** -/
theorem readForms_liesIn {text : String} {forms : List Tree} (h : readForms text = .ok forms) :
    ∀ t ∈ forms, t.LiesIn text := by
  obtain ⟨d⟩ := derivation_of_readForms h
  exact d.liesIn List.suffix_rfl

/-! ## What cannot be read -/

/-- A string that cannot be read is refused at a place of the text: from its opening quote, or at an
escape. -/
theorem error_of_scanString_liesIn {start pos : Nat} {opening cs : List Char} {e : SyntaxError}
    (hstart : Continues whole start opening) (hle : start ≤ pos) (hpos : Continues whole pos cs)
    (h : scanString start pos cs = .error e) : e.span.LiesIn whole := by
  fun_induction scanString start pos cs with
  | case1 pos =>
    cases h
    exact hstart.liesIn hpos hle
  | case2 => cases h
  | case3 pos =>
    cases h
    exact hstart.liesIn hpos.cons (Nat.le_succ_of_le hle)
  | case4 pos c rest hno =>
    cases h
    exact hpos.liesIn hpos.cons.cons (by omega)
  | case5 pos c rest d hd ih =>
    rcases hscan : scanString start (pos + 1 + c.utf8Size) rest with e' | r
    · rw [hscan] at h
      cases h
      exact ih (by omega) hpos.cons.cons hscan
    · rw [hscan] at h
      cases h
  | case6 pos c rest _ _ _ ih =>
    rcases hscan : scanString start (pos + c.utf8Size) rest with e' | r
    · rw [hscan] at h
      cases h
      exact ih (by omega) hpos.cons hscan
    · rw [hscan] at h
      cases h

/-- Behind a string that was read the text goes on. -/
theorem continues_of_scanString {start pos : Nat} {cs : List Char} {r : List Char × Nat × List Char}
    (hpos : Continues whole pos cs) (h : scanString start pos cs = .ok r) :
    Continues whole r.2.1 r.2.2 ∧ pos ≤ r.2.1 := by
  obtain ⟨q⟩ := quoted_of_scanString h
  obtain ⟨stop, hstop, hagain⟩ := q.scanString_eq start pos
  rw [h, Except.ok.injEq] at hagain
  obtain ⟨piece, hpiece⟩ := q.suffix
  rw [← hpiece, byteCount_append] at hstop
  rw [← hpiece] at hpos
  have hplace : r.2.1 = pos + byteCount piece := by
    rw [hagain]
    exact Nat.add_right_cancel (hstop.trans (Nat.add_assoc ..).symm)
  exact ⟨hplace ▸ hpos.append, hplace ▸ Nat.le_add_right _ _⟩

/-- Behind a word the text goes on. -/
theorem continues_behind_word {pos : Nat} {c : Char} {rest : List Char}
    (hpos : Continues whole pos (c :: rest)) :
    Continues whole (pos + byteCount (c :: rest.takeWhile isSymbolChar))
      (rest.dropWhile isSymbolChar) := by
  refine Continues.append ?_
  rw [List.cons_append, List.takeWhile_append_dropWhile]
  exact hpos

/-- What was scanned of a text is in it: the tokens, with parentheses that take one byte, and the
error. -/
structure Scanned (whole : String) (s : Scan) : Prop where
  tokens : ∀ token ∈ s.tokens, token.span.LiesIn whole ∧ UnitParen token
  error : ∀ e, s.error? = some e → e.span.LiesIn whole

theorem Scanned.failed {e : SyntaxError} (h : e.span.LiesIn whole) : Scanned whole (.failed e) where
  tokens := fun _ ht => absurd ht List.not_mem_nil
  error := fun e' he => by
    cases he
    exact h

theorem Scanned.cons {s : Scan} {token : Token} (h : token.span.LiesIn whole)
    (hparen : UnitParen token) (hs : Scanned whole s) : Scanned whole (s.cons token) where
  tokens := List.forall_mem_cons.2 ⟨⟨h, hparen⟩, hs.tokens⟩
  error := hs.error

/-- **What is scanned of a text is in it**, also if the scanner comes to an error. -/
theorem scanned {pos : Nat} {cs : List Char} (hpos : Continues whole pos cs) :
    Scanned whole (scan pos cs) := by
  fun_induction scan pos cs with
  | case1 pos => exact ⟨fun _ ht => absurd ht List.not_mem_nil, fun _ he => by cases he⟩
  | case2 pos c rest hblank ih =>
    have hc : c.utf8Size = 1 := by rcases isBlank_iff.1 hblank with rfl | rfl | rfl | rfl <;> rfl
    exact ih (hc ▸ hpos.cons)
  | case3 pos rest after hends hblank ih =>
    refine ih (Continues.append ?_)
    rw [List.takeWhile_append_dropWhile]
    exact hpos.cons
  | case4 pos rest after hends hblank => exact .failed (hpos.liesIn hpos.cons (Nat.le_succ _))
  | case5 pos rest _ _ ih | case6 pos rest _ _ _ ih =>
    exact (ih hpos.cons).cons (hpos.liesIn hpos.cons (Nat.le_succ _)) (.inr rfl)
  | case7 pos rest e hstring =>
    exact .failed (error_of_scanString_liesIn hpos (Nat.le_succ _) hpos.cons hstring)
  | case8 pos rest r hstring _ _ _ _ ih =>
    obtain ⟨hrest, hle⟩ := continues_of_scanString hpos.cons hstring
    exact (ih hrest).cons (hpos.liesIn hrest (Nat.le_trans (Nat.le_add_right _ _) hle))
      (.inl ⟨_, rfl⟩)
  | case9 pos c rest _ _ _ _ _ hc word stop f hword =>
    exact .failed (hpos.liesIn (continues_behind_word hpos) (Nat.le_add_right _ _))
  | case10 pos c rest _ _ _ _ _ hc word stop a hword ih =>
    have hstop := continues_behind_word hpos
    exact (ih hstop).cons (hpos.liesIn hstop (Nat.le_add_right _ _)) (.inl ⟨_, rfl⟩)
  | case11 pos c rest => exact .failed (hpos.liesIn hpos.cons (Nat.le_add_right _ _))

theorem Scanned.tail {token : Token} {tokens : List Token} {error? : Option SyntaxError}
    (h : Scanned whole ⟨token :: tokens, error?⟩) : Scanned whole ⟨tokens, error?⟩ :=
  ⟨fun token ht => h.tokens token (List.mem_cons_of_mem _ ht), h.error⟩

/-- An error of the reader is that of the scanner, or at a parenthesis: one that closes nothing, or
one that opens a list that is still open at the end. -/
theorem error_of_assemble_liesIn {error? : Option SyntaxError} {tokens : List Token}
    {levels : List OpenList} {items : List Tree} {e : SyntaxError}
    (hscanned : Scanned whole ⟨tokens, error?⟩)
    (hlevels : ∀ level ∈ levels, Span.LiesIn ⟨level.start, level.start + 1⟩ whole)
    (h : assemble error? tokens levels items = .error e) : e.span.LiesIn whole := by
  fun_induction assemble error? tokens levels items with
  | case1 levels items e' herror =>
    cases h
    exact hscanned.error _ herror
  | case2 => cases h
  | case3 items level levels =>
    cases h
    exact hlevels level List.mem_cons_self
  | case4 s tokens levels items ih =>
    obtain ⟨hspan, ⟨a, ha⟩ | hunit⟩ := hscanned.tokens _ List.mem_cons_self
    · cases ha
    · have hlevel : Span.LiesIn ⟨s.start, s.start + 1⟩ whole := hunit ▸ hspan
      exact ih hscanned.tail (List.forall_mem_cons.2 ⟨hlevel, hlevels⟩) h
  | case5 s tokens items =>
    cases h
    exact (hscanned.tokens _ List.mem_cons_self).1
  | case6 s tokens level levels items ih =>
    exact ih hscanned.tail (fun level hlevel => hlevels level (List.mem_cons_of_mem _ hlevel)) h
  | case7 a s tokens levels items ih => exact ih hscanned.tail hlevels h

/-- **The error of a text that cannot be read is in the text.** -/
theorem error_of_readForms_liesIn {text : String} {e : SyntaxError}
    (h : readForms text = .error e) :
    e.span.LiesIn text :=
  error_of_assemble_liesIn (scanned (.zero text)) (fun _ hlevel => absurd hlevel List.not_mem_nil) h

end Grammar

end Kiln
