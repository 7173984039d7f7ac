import Kiln.Text.Span
import Mathlib.Data.List.TakeWhile
/-!
# Places of a text

Which spans a text has, and how the lines and columns of its places are counted. A span has to start
and stop between characters of the text (`Span.LiesIn`); such a place is known by the characters
that the text goes on with from there (`Continues`). The line and the column that are told of it are
those that one counts (`Span.position_counts`). Of a place inside of a character they would be those
of the character.
-/

namespace Kiln

/-- The bytes of a text are those of its characters. -/
theorem utf8ByteSize_ofList (cs : List Char) : (String.ofList cs).utf8ByteSize = byteCount cs := by
  induction cs with
  | nil => rfl
  | cons c cs ih =>
    rw [← List.singleton_append, String.ofList_append, String.utf8ByteSize_append, ih,
      byteCount_append, ← String.singleton_eq_ofList, String.utf8ByteSize_singleton]
    rfl

theorem utf8ByteSize_eq (text : String) : text.utf8ByteSize = byteCount text.toList := by
  rw [← utf8ByteSize_ofList, String.ofList_toList]

theorem byteCount_reverse (cs : List Char) : byteCount cs.reverse = byteCount cs := by
  induction cs with
  | nil => rfl
  | cons c cs ih =>
    rw [List.reverse_cons, byteCount_append, ih, byteCount_cons, byteCount_cons,
      byteCount_nil, Nat.add_zero, Nat.add_comm]

/-- From that byte on the text goes on with these characters. -/
def Continues (text : String) (offset : Nat) (rest : List Char) : Prop :=
  ∃ before, text.toList = before ++ rest ∧ offset = byteCount before

/-- A place is between characters when the text goes on with some of them from there. -/
theorem isValid_iff {text : String} {offset : Nat} : String.Pos.Raw.IsValid text ⟨offset⟩ ↔
    ∃ rest, Continues text offset rest := by
  rw [String.Pos.Raw.isValid_iff_exists_append]
  constructor
  · rintro ⟨before, after, rfl, hoffset⟩
    refine ⟨after.toList, before.toList, String.toList_append, ?_⟩
    rw [← utf8ByteSize_eq]
    exact congrArg String.Pos.Raw.byteIdx hoffset
  · rintro ⟨after, before, htext, rfl⟩
    refine ⟨.ofList before, .ofList after, ?_, ?_⟩
    · rw [← String.ofList_append, ← htext, String.ofList_toList]
    · rw [← utf8ByteSize_ofList]
      rfl

/-! ## Spans -/

/-- A span that a text has: it does not run backwards, and both its ends are in the text and between
characters. -/
structure Span.LiesIn (s : Span) (text : String) : Prop where
  order : s.start ≤ s.stop
  bound : s.stop ≤ text.utf8ByteSize
  start : String.Pos.Raw.IsValid text ⟨s.start⟩
  stop : String.Pos.Raw.IsValid text ⟨s.stop⟩

namespace Continues

variable {text : String} {offset stop : Nat} {c : Char} {piece rest after : List Char}

theorem zero (text : String) : Continues text 0 text.toList := ⟨[], rfl, rfl⟩

theorem finish (text : String) : Continues text text.utf8ByteSize [] :=
  ⟨text.toList, (List.append_nil _).symm, utf8ByteSize_eq text⟩

/-- Behind a piece of the text it goes on with what follows the piece. -/
theorem append (h : Continues text offset (piece ++ rest)) :
    Continues text (offset + byteCount piece) rest := by
  obtain ⟨before, htext, rfl⟩ := h
  exact ⟨before ++ piece, by rw [htext, List.append_assoc], (byteCount_append ..).symm⟩

theorem cons (h : Continues text offset (c :: rest)) : Continues text (offset + c.utf8Size) rest :=
  append (show Continues text offset ([c] ++ rest) from h)

/-- The stretch between two places of a text is a span that it has. -/
theorem liesIn (h : Continues text offset rest) (hstop : Continues text stop after)
    (hle : offset ≤ stop) :
    Span.LiesIn ⟨offset, stop⟩ text where
  order := hle
  bound := by
    obtain ⟨before, htext, hstop⟩ := hstop
    rw [utf8ByteSize_eq, htext, byteCount_append]
    exact hstop ▸ Nat.le_add_right _ _
  start := isValid_iff.2 ⟨_, h⟩
  stop := isValid_iff.2 ⟨_, hstop⟩

end Continues

theorem Span.whole_liesIn (text : String) : (whole text).LiesIn text :=
  (Continues.zero text).liesIn (.finish text) (Nat.zero_le _)

/-! ## Lines and columns -/

/-- A line and a column as they are counted: one more than the newlines before the place, and one
more than the bytes between the last of these, or the beginning of the text, and the place. -/
def Position.Counts (p : Position) (text : String) (offset : Nat) : Prop :=
  ∃ lines line after : List Char, text.toList = lines ++ line ++ after ∧
    offset = byteCount (lines ++ line) ∧
    (lines = [] ∨ lines.getLast? = some '\n') ∧ '\n' ∉ line ∧
    p.line = 1 + (lines ++ line).count '\n' ∧ p.column = 1 + byteCount line

/-- **Lines and columns are told as they are counted**, of places between characters. -/
theorem Span.position_counts {text : String} {s : Span}
    (h : String.Pos.Raw.IsValid text ⟨s.start⟩) :
    (s.position text).Counts text s.start := by
  obtain ⟨after, before, htext, hstart⟩ := isValid_iff.1 h
  have hbefore : charsUpTo s.start text.toList = before := by
    rw [hstart, htext, charsUpTo_byteCount]
  -- what comes before the place, from its end back to the last newline
  let line := (before.reverse.takeWhile (· != '\n')).reverse
  let lines := (before.reverse.dropWhile (· != '\n')).reverse
  have hlines : lines ++ line = before := by
    rw [← List.reverse_append, List.takeWhile_append_dropWhile, List.reverse_reverse]
  refine ⟨lines, line, after, ?_, ?_, ?_, ?_, ?_, ?_⟩
  · rw [hlines, htext]
  · rw [hlines, hstart]
  · have hlast := List.head?_dropWhile_not (· != '\n') before.reverse
    rw [List.getLast?_reverse]
    rcases hrest : before.reverse.dropWhile (· != '\n') with _ | ⟨c, rest⟩
    · exact .inl (congrArg List.reverse hrest)
    · rw [hrest] at hlast
      exact .inr (congrArg some (by simpa using hlast))
  · intro hline
    have hne := List.mem_takeWhile_imp (List.mem_reverse.1 hline)
    exact absurd hne (by decide)
  · rw [hlines, position, hbefore, Nat.add_comm]
  · rw [position, hbefore, byteCount_reverse]
    exact Nat.add_comm _ _

end Kiln
