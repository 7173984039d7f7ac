/-!
# Spans and positions

Offsets into a text count bytes of its UTF-8 form. A `Span` is a pair of such
offsets; `Span.position` turns its start into a line and a column, both counted
from one, the column again in bytes.
-/

namespace Kiln

/-- Bytes that the UTF-8 form of the characters takes. -/
def byteCount : List Char → Nat
  | [] => 0
  | c :: cs => c.utf8Size + byteCount cs

@[simp] theorem byteCount_nil : byteCount [] = 0 := rfl

@[simp] theorem byteCount_cons (c : Char) (cs : List Char) :
    byteCount (c :: cs) = c.utf8Size + byteCount cs := rfl

@[simp] theorem byteCount_append (cs ds : List Char) :
    byteCount (cs ++ ds) = byteCount cs + byteCount ds := by
  induction cs with
  | nil => simp
  | cons c cs ih => simp [ih, Nat.add_assoc]

/-- The characters that end at or before byte `n`. -/
def charsUpTo : Nat → List Char → List Char
  | _, [] => []
  | n, c :: cs => if c.utf8Size ≤ n then c :: charsUpTo (n - c.utf8Size) cs else []

@[simp] theorem charsUpTo_byteCount (cs ds : List Char) :
    charsUpTo (byteCount cs) (cs ++ ds) = cs := by
  induction cs with
  | nil =>
    cases ds with
    | nil => rfl
    | cons d ds => simp [charsUpTo, Nat.not_le.2 d.utf8Size_pos]
  | cons c cs ih => simp [charsUpTo, ih]

/-- A stretch of text, from byte `start` up to and without byte `stop`. -/
structure Span where
  /-- Offset of the first byte. -/
  start : Nat
  /-- Offset just past the last byte. -/
  stop : Nat
  deriving DecidableEq, Repr, Inhabited

/-- A line and a column, both counted from one. -/
structure Position where
  /-- One more than the newlines before the place. -/
  line : Nat
  /-- One more than the bytes since the last newline. -/
  column : Nat
  deriving DecidableEq, Repr

namespace Span

/-- Length in bytes; an inverted span has none. -/
def length (s : Span) : Nat := s.stop - s.start

/-- No byte lies in the span. -/
def isEmpty (s : Span) : Bool := s.length == 0

/-- The span of a whole text. -/
def whole (text : String) : Span := ⟨0, text.utf8ByteSize⟩

/-- Line and column of the start; a start beyond the text counts as its end. -/
def position (s : Span) (text : String) : Position :=
  let before := charsUpTo s.start text.toList
  ⟨before.count '\n' + 1, byteCount (before.reverse.takeWhile (· != '\n')) + 1⟩

end Span

end Kiln
