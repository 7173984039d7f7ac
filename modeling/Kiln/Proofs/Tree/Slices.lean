import Kiln.Proofs.Tree.Places
import Mathlib.Data.String.Basic
/-!
# What a tree has of its text

Spans are more than places inside of the text: what a span covers is the writing of its tree
(`readForms_covered`). From one tree to the next a text has blanks and comments, a list also has its
two parentheses, and a slice that is cut along a span is read as the tree again, at places of its
own. For the slice this takes that a form does not depend on what is behind it, as long as words end
there (`Grammar.Form.anew`).
-/

namespace Kiln

/-! ## Slices -/

/-- The part of a text that a span covers. -/
def Span.slice (s : Span) (text : String) : String := String.Pos.Raw.extract text ⟨s.start⟩ ⟨s.stop⟩

theorem utf8Len_eq (cs : List Char) : String.utf8Len cs = byteCount cs := by
  induction cs with
  | nil => rfl
  | cons c cs ih => rw [String.utf8Len_cons, ih, byteCount_cons, Nat.add_comm]

/-- From a place on, so many bytes of a text are the characters that take them. -/
theorem Continues.slice_eq {text : String} {offset : Nat} {piece rest : List Char}
    (h : Continues text offset (piece ++ rest)) :
    Span.slice ⟨offset, offset + byteCount piece⟩ text = String.ofList piece := by
  obtain ⟨before, htext, rfl⟩ := h
  have hwhole : text = String.ofList (before ++ piece ++ rest) := by
    rw [List.append_assoc, ← htext, String.ofList_toList]
  rw [Span.slice, hwhole, ← utf8Len_eq, ← utf8Len_eq]
  exact String.extract_of_valid before piece rest

/-! ## Between trees -/

/-- From one place of a text up to another there are blanks and comments only. -/
def Trivia (text : String) (start stop : Nat) : Prop :=
  ∃ here there, Continues text start here ∧ Continues text stop there ∧
    Nonempty (Grammar.Gap here there)

/-- Trees one after the other, from one place of a text up to another, with blanks and comments
before, between and behind them and nothing else. -/
def Spaced (text : String) : Nat → List Tree → Nat → Prop
  | start, [], stop => Trivia text start stop
  | start, t :: ts, stop =>
    Trivia text start t.span.start ∧ t.span.start < t.span.stop ∧ Spaced text t.span.stop ts stop

theorem Trivia.le {text : String} {start stop : Nat} (h : Trivia text start stop) :
    start ≤ stop := by
  obtain ⟨here, there, ⟨before, hbefore, rfl⟩, ⟨before', hbefore', rfl⟩, ⟨g⟩⟩ := h
  have hbytes := congrArg byteCount (hbefore.symm.trans hbefore')
  have hle := g.byteCount_le
  rw [byteCount_append, byteCount_append] at hbytes
  omega

namespace Spaced

variable {text : String} {start stop : Nat} {ts : List Tree}

theorem le (h : Spaced text start ts stop) : start ≤ stop := by
  induction ts generalizing start with
  | nil => exact Trivia.le h
  | cons t ts ih =>
    obtain ⟨htrivia, hlt, hts⟩ := h
    exact Nat.le_trans htrivia.le (Nat.le_trans (Nat.le_of_lt hlt) (ih hts))

/-- Spaced trees are between the two places. -/
theorem within (h : Spaced text start ts stop) :
    ∀ t ∈ ts, start ≤ t.span.start ∧ t.span.stop ≤ stop := by
  induction ts generalizing start with
  | nil => exact fun t ht => absurd ht List.not_mem_nil
  | cons t ts ih =>
    obtain ⟨htrivia, hlt, hts⟩ := h
    refine List.forall_mem_cons.2 ⟨⟨htrivia.le, hts.le⟩, fun u hu => ⟨?_, (ih hts u hu).2⟩⟩
    exact Nat.le_trans htrivia.le (Nat.le_trans (Nat.le_of_lt hlt) (ih hts u hu).1)

/-- Spaced trees are disjoint and in order. -/
theorem pairwise (h : Spaced text start ts stop) : ts.Pairwise (·.span.stop ≤ ·.span.start) := by
  induction ts generalizing start with
  | nil => exact List.Pairwise.nil
  | cons t ts ih =>
    obtain ⟨-, -, hts⟩ := h
    exact List.pairwise_cons.2 ⟨fun u hu => (hts.within u hu).1, ih hts⟩

end Spaced

namespace Grammar

variable {size : Nat} {whole : String}

/-- A form takes at least one byte. -/
theorem Form.byteCount_lt {text rest : List Char} {t : Tree} (f : Form size text t rest) :
    byteCount rest < byteCount text := by
  cases f with
  | @list text rest items d =>
    have hinner := d.byteCount_le
    rw [byteCount_cons] at hinner
    have hparen := Char.utf8Size_pos ')'
    rw [byteCount_cons]
    omega
  | string q =>
    have hinner := q.byteCount_lt
    rw [byteCount_cons]
    omega
  | word word htext hne hword hends hspells =>
    obtain ⟨c, cs, rfl⟩ := List.exists_cons_of_ne_nil hne
    have hc := Char.utf8Size_pos c
    rw [htext, byteCount_append, byteCount_cons]
    omega

theorem Gap.trivia {text rest : List Char} (g : Gap text rest) (htext : text <:+ whole.toList) :
    Trivia whole (place (byteCount whole.toList) text) (place (byteCount whole.toList) rest) :=
  ⟨text, rest, continues_place htext, continues_place (g.suffix.trans htext), ⟨g⟩⟩

/-- A form of a text starts before it stops. -/
theorem Form.start_lt {text rest : List Char} {t : Tree}
    (f : Form (byteCount whole.toList) text t rest) (htext : text <:+ whole.toList) :
    t.span.start < t.span.stop := by
  have hlt := f.byteCount_lt
  have hle := byteCount_le_of_suffix htext
  rw [f.span_eq]
  exact Nat.sub_lt_sub_left (Nat.lt_of_lt_of_le hlt hle) hlt

/-- Forms that a text derives are spaced in it. -/
theorem Forms.spaced : ∀ {text rest : List Char} {ts : List Tree},
    Forms (byteCount whole.toList) text ts rest → text <:+ whole.toList →
      Spaced whole (place (byteCount whole.toList) text) ts (place (byteCount whole.toList) rest)
  | _, _, _, .last g => fun htext => g.trivia htext
  | _, _, _, .next g f d => by
    intro htext
    have hstart := g.suffix.trans htext
    have hgap := g.trivia htext
    have hrest := d.spaced (f.suffix.trans hstart)
    refine ⟨?_, f.start_lt hstart, ?_⟩
    · rwa [f.span_eq]
    · rwa [f.span_eq]

/-! ## The same with something else behind -/

/-- Where no blank follows, the end of a line can be seen without what is behind the next
character. -/
theorem AtLineEnd.anew {piece rest rest' : List Char} (h : AtLineEnd (piece ++ rest))
    (hrest : NoGap rest) (hhead : rest'.head? = rest.head?) : AtLineEnd (piece ++ rest') := by
  have hblank : ∀ c cs, rest = c :: cs → isBlank c = false := by
    rintro c cs rfl
    exact (hrest c rfl).1
  rcases piece with _ | ⟨c, piece⟩
  · cases h with
    | finish =>
      rw [List.head?_eq_none_iff.1 hhead]
      exact .finish
    | newline => cases hblank _ _ rfl
    | pair => cases hblank _ _ rfl
  · rcases piece with _ | ⟨d, piece⟩
    · generalize hwhole : [c] ++ rest = text at h
      cases h with
      | finish => cases hwhole
      | newline =>
        cases hwhole
        exact .newline rest'
      | pair =>
        obtain ⟨-, rfl⟩ := List.cons.inj hwhole
        cases hblank _ _ rfl
    · generalize hwhole : c :: d :: piece ++ rest = text at h
      cases h with
      | finish => cases hwhole
      | newline =>
        cases hwhole
        exact .newline _
      | pair =>
        cases hwhole
        exact .pair _

/-- Blanks and comments stay such when only what is behind the next character is replaced. -/
theorem Gap.anew {text rest : List Char} (g : Gap text rest) (hrest : NoGap rest) :
    ∃ piece, text = piece ++ rest ∧
      ∀ rest', rest'.head? = rest.head? → Nonempty (Gap (piece ++ rest') rest') := by
  induction g with
  | none => exact ⟨[], rfl, fun rest' _ => ⟨.none rest'⟩⟩
  | blank c hblank g ih =>
    obtain ⟨piece, rfl, hagain⟩ := ih hrest
    refine ⟨c :: piece, rfl, fun rest' hhead => ?_⟩
    obtain ⟨g'⟩ := hagain rest' hhead
    exact ⟨.blank c hblank g'⟩
  | comment body htext hbody hend g ih =>
    obtain ⟨piece, rfl, hagain⟩ := ih hrest
    refine ⟨';' ::
      (body ++ piece), by rw [htext, List.cons_append, List.append_assoc], fun rest' hhead => ?_⟩
    obtain ⟨g'⟩ := hagain rest' hhead
    exact ⟨.comment body (by rw [List.cons_append, List.append_assoc]) hbody
      (hend.anew hrest hhead) g'⟩

theorem Quoted.anew {text meant rest : List Char} (q : Quoted text meant rest) :
    ∃ piece, text = piece ++ rest ∧ ∀ rest', Nonempty (Quoted (piece ++ rest') meant rest') := by
  induction q with
  | close => exact ⟨['"'], rfl, fun rest' => ⟨.close rest'⟩⟩
  | escape c d hescape q ih =>
    obtain ⟨piece, rfl, hagain⟩ := ih
    refine ⟨'\\' :: c :: piece, rfl, fun rest' => ?_⟩
    obtain ⟨q'⟩ := hagain rest'
    exact ⟨.escape c d hescape q'⟩
  | plain c hquote hslash q ih =>
    obtain ⟨piece, rfl, hagain⟩ := ih
    refine ⟨c :: piece, rfl, fun rest' => ?_⟩
    obtain ⟨q'⟩ := hagain rest'
    exact ⟨.plain c hquote hslash q'⟩

theorem head?_append_cons (piece : List Char) (c : Char) (rest rest' : List Char) :
    (piece ++ c :: rest').head? = (piece ++ c :: rest).head? := by
  cases piece <;> rfl

mutual

/-- **A form is the same whatever is behind it**, as long as no word could go on there. -/
theorem Form.anew : ∀ {text rest : List Char} {t : Tree}, Form size text t rest →
    ∃ piece, text = piece ++ rest ∧ ∀ size' rest', (WordEnds rest → WordEnds rest') →
      ∃ t' : Tree, t'.alike t = true ∧ Nonempty (Form size' (piece ++ rest') t' rest')
  | _, rest, _, .list d => by
    obtain ⟨piece, rfl, hagain⟩ := d.anew
    refine ⟨'(' ::
      (piece ++ [')']), by rw [List.cons_append, List.append_assoc, List.singleton_append], ?_⟩
    intro size' rest' _
    obtain ⟨ts', halike, ⟨d'⟩⟩ := hagain size' rest'
    rw [List.cons_append, List.append_assoc, List.singleton_append]
    exact ⟨_, by rw [Tree.alike, halike], ⟨.list d'⟩⟩
  | _, _, _, .string q => by
    obtain ⟨piece, rfl, hagain⟩ := q.anew
    refine ⟨'"' :: piece, rfl, fun size' rest' _ => ?_⟩
    obtain ⟨q'⟩ := hagain rest'
    exact ⟨_, by rw [Tree.alike, decide_eq_true_eq], ⟨.string q'⟩⟩
  | _, _, _, .word word htext hne hword hends hspells =>
    ⟨word, htext, fun _ rest' hrest' =>
      ⟨_, by rw [Tree.alike, decide_eq_true_eq], ⟨.word word rfl hne hword (hrest' hends) hspells⟩⟩⟩

/-- The forms of a list are the same whatever is behind the list. -/
theorem Forms.anew : ∀ {text rest : List Char} {ts : List Tree}, Forms size text ts (')' :: rest) →
    ∃ piece, text = piece ++ ')' :: rest ∧
      ∀ size' rest', ∃ ts' : List Tree, Tree.alikeAll ts' ts = true ∧
      Nonempty (Forms size' (piece ++ ')' :: rest') ts' (')' :: rest'))
  | _, rest, _, .last g => by
    obtain ⟨piece, rfl, hagain⟩ := g.anew (Closed.noGap (.inr ⟨rest, rfl⟩))
    refine ⟨piece, rfl, fun size' rest' => ?_⟩
    obtain ⟨g'⟩ := hagain (')' :: rest') rfl
    exact ⟨[], rfl, ⟨.last g'⟩⟩
  | _, rest, _, .next g f d => by
    have hopens := f.opens.noGap
    obtain ⟨behind, rfl, hforms⟩ := d.anew
    obtain ⟨piece, rfl, hform⟩ := f.anew
    obtain ⟨before, rfl, hgap⟩ := g.anew hopens
    refine ⟨before ++ (piece ++ behind), by simp only [List.append_assoc], fun size' rest' => ?_⟩
    have hhead := head?_append_cons behind ')' rest rest'
    have hstart := head?_append_cons (piece ++ behind) ')' rest rest'
    rw [List.append_assoc, List.append_assoc] at hstart
    obtain ⟨ts', halikes, ⟨d'⟩⟩ := hforms size' rest'
    obtain ⟨t', halike, ⟨f'⟩⟩ :=
      hform size' (behind ++ ')' :: rest') fun hends c hc => hends c (hhead ▸ hc)
    obtain ⟨g'⟩ := hgap (piece ++ (behind ++ ')' :: rest')) hstart
    rw [List.append_assoc, List.append_assoc]
    exact ⟨t' :: ts', by rw [Tree.alikeAll, halike, halikes]; rfl, ⟨.next g' f' d'⟩⟩

end

/-- What a form is written with is read as the form again. -/
theorem Form.reread {text rest : List Char} {t : Tree} (f : Form size text t rest) :
    ∃ piece, text = piece ++ rest ∧
      ∃ u, readForms (String.ofList piece) = .ok [u] ∧ u.alike t = true := by
  obtain ⟨piece, htext, hagain⟩ := f.anew
  obtain ⟨u, halike, ⟨f'⟩⟩ := hagain (byteCount piece) [] fun _ c hc => by cases hc
  rw [List.append_nil] at f'
  refine ⟨piece, htext, u, readForms_of_derivation ?_, halike⟩
  rw [Derivation, String.toList_ofList]
  exact .next (.none piece) f' (.last (.none []))

/-! ## Every part -/

/-- Each of several forms has a derivation of its own. -/
theorem Forms.form_of_mem :
    ∀ {text rest : List Char} {ts : List Tree} {t : Tree}, Forms size text ts rest →
    t ∈ ts → ∃ start after, start <:+ text ∧ Nonempty (Form size start t after)
  | _, _, _, _, .last _, ht => absurd ht List.not_mem_nil
  | _, _, _, _, .next g f d, ht => by
    rcases List.mem_cons.1 ht with rfl | ht
    · exact ⟨_, _, g.suffix, ⟨f⟩⟩
    · obtain ⟨start, after, hstart, hform⟩ := d.form_of_mem ht
      exact ⟨start, after, hstart.trans (f.suffix.trans g.suffix), hform⟩

/-- So has each part of a form. -/
theorem form_of_partOf {t u : Tree} (hpart : u.PartOf t) :
    ∀ {text rest : List Char}, Form size text t rest →
    ∃ start after, start <:+ text ∧ Nonempty (Form size start u after) := by
  induction hpart with
  | whole => exact fun f => ⟨_, _, List.suffix_rfl, ⟨f⟩⟩
  | item hmem hpart ih =>
    intro text rest f
    cases f with
    | list d =>
      obtain ⟨start, after, hstart, ⟨f⟩⟩ := d.form_of_mem hmem
      obtain ⟨start', after', hstart', hform⟩ := ih f
      exact ⟨start', after', hstart'.trans (hstart.trans (List.suffix_cons _ _)), hform⟩

end Grammar

/-- A tree covers its writing in a text. -/
structure Tree.Covers (t : Tree) (text : String) : Prop where
  /-- Its span is one that the text has. -/
  liesIn : t.span.LiesIn text
  /-- Something is under it. -/
  nonempty : t.span.start < t.span.stop
  /-- What is under it reads as the tree again, and as nothing besides. -/
  again : ∃ u, readForms (t.span.slice text) = .ok [u] ∧ u.alike t = true
  /-- A list is its two parentheses, and its items between them. -/
  list : ∀ items, t.items? = some items →
    (∃ rest, Continues text t.span.start ('(' :: rest)) ∧
    (∃ rest, Continues text (t.span.stop - 1) (')' :: rest)) ∧
    Spaced text (t.span.start + 1) items (t.span.stop - 1) ∧
    items.Pairwise (·.span.stop ≤ ·.span.start) ∧
    ∀ u ∈ items, t.span.start < u.span.start ∧ u.span.stop < t.span.stop

namespace Grammar

variable {whole : String}

/-- A form covers its writing in the text that derives it. -/
theorem Form.covers {text rest : List Char} {t : Tree}
    (f : Form (byteCount whole.toList) text t rest) (htext : text <:+ whole.toList) :
    t.Covers whole where
  liesIn := (f.liesIn htext).span
  nonempty := f.start_lt htext
  again := by
    obtain ⟨piece, hpiece, hread⟩ := f.reread
    have hbytes := byteCount_le_of_suffix htext
    have hplace := continues_place htext
    rw [hpiece] at hbytes hplace
    have hslice := hplace.slice_eq
    rw [← place_append piece hbytes, ← hpiece] at hslice
    rwa [f.span_eq, stretch, hslice]
  list := by
    rintro items hitems
    have hlt := f.start_lt htext
    cases f with
    | @list text rest items d =>
      cases hitems
      have hinner := (List.suffix_cons '(' text).trans htext
      have hbytes := byteCount_le_of_suffix htext
      have hclose := d.suffix.trans hinner
      -- both parentheses take one byte
      have hstart :
          place (byteCount whole.toList) text = place (byteCount whole.toList) ('(' :: text) + 1 :=
        place_cons hbytes
      have hstop :
          place (byteCount whole.toList) rest = place (byteCount whole.toList) (')' :: rest) + 1 :=
        place_cons (byteCount_le_of_suffix hclose)
      have hspaced := d.spaced hinner
      rw [hstart] at hspaced
      rw [Tree.span, stretch, hstop, Nat.add_sub_cancel]
      refine ⟨⟨text, continues_place htext⟩, ⟨rest, continues_place hclose⟩, hspaced,
        hspaced.pairwise, ?_⟩
      exact fun u hu => ⟨(hspaced.within u hu).1, Nat.lt_succ_of_le (hspaced.within u hu).2⟩
    | string => cases hitems
    | word => cases hitems

/-- **What is read off a text covers the text.** The forms follow each other in it, with blanks and
comments between them and nothing else, and so do the items of every list between its parentheses;
and each tree, at any depth, is what the part of the text under its span is read as. -/
theorem readForms_covered {text : String} {forms : List Tree} (h : readForms text = .ok forms) :
    Spaced text 0 forms text.utf8ByteSize ∧ forms.Pairwise (·.span.stop ≤ ·.span.start) ∧
      ∀ t ∈ forms, ∀ u : Tree, u.PartOf t → u.Covers text := by
  obtain ⟨d⟩ := derivation_of_readForms h
  have hspaced := d.spaced List.suffix_rfl
  rw [place, Nat.sub_self, place, byteCount_nil, Nat.sub_zero, ← utf8ByteSize_eq] at hspaced
  refine ⟨hspaced, hspaced.pairwise, fun t ht u hu => ?_⟩
  obtain ⟨start, after, hstart, ⟨f⟩⟩ := d.form_of_mem ht
  obtain ⟨start', after', hstart', ⟨f'⟩⟩ := form_of_partOf hu f
  exact f'.covers (hstart'.trans hstart)

/-- A list with a string in it that has more bytes than characters, and a number after a comment. -/
theorem readForms_covered_list :
    let word : Tree := .leaf (.str "é") ⟨3, 7⟩
    let forms : List Tree :=
      [.node [.leaf (.sym "f") ⟨1, 2⟩, word] ⟨0, 8⟩, .leaf (.int (-1)) ⟨15, 17⟩]
    let text := "(f \"é\") ; end\n-1"
    readForms text = .ok forms ∧ Spaced text 0 forms 17 ∧ word.Covers text ∧
      ∃ u, readForms (Span.slice ⟨0, 8⟩ text) = .ok [u] ∧
        u.alike (.node [.leaf (.sym "f") ⟨1, 2⟩, word] ⟨0, 8⟩) := by
  intro word forms text
  have hread : readForms text = .ok forms := by
    rw [@readForms_eq _ "(f \"é\") ; end\n-1".toList rfl]
    rfl
  obtain ⟨hspaced, -, hcovers⟩ := readForms_covered hread
  have hlist := hcovers _ List.mem_cons_self
  exact ⟨hread, hspaced, hlist _ (.item (.tail _ List.mem_cons_self) (.whole word)),
    (hlist _ (.whole _)).again⟩

end Grammar

end Kiln
