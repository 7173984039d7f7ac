import Kiln.Tree.Basic
import Kiln.Tree.SyntaxError
/-!
# Lexemes

A text falls into parentheses and atoms, with blanks and comments between them. A
word is a maximal run of symbol characters; one that starts as a number has to be a
number as a whole. `scan` splits a text up to its end or to the first place where no
lexeme can start: what was read before that place is kept, so that the reader can
report an unbalanced parenthesis that comes first.
-/

namespace Kiln

/-- Characters that separate lexemes. -/
def isBlank (c : Char) : Bool :=
  c == ' ' || c == '\t' || c == '\r' || c == '\n'

/-- Characters that words are made of. -/
def isSymbolChar (c : Char) : Bool :=
  c.isAlphanum || "_+-*/<>=!?.:$&%\x7b\x7d".toList.contains c

/-- The digits of a number that a word starts as: a digit, or a minus and a digit. -/
def startsAsNumber : List Char → Bool
  | '-' :: d :: _ => d.isDigit
  | d :: _ => d.isDigit
  | [] => false

/-- The word without its sign. -/
def unsigned : List Char → List Char
  | '-' :: ds => ds
  | ds => ds

/-- The word is a number: an optional minus and one or more digits. -/
def isNumber (word : List Char) : Bool :=
  !(unsigned word).isEmpty && (unsigned word).all Char.isDigit

/-- Whether a text can serve as a name: symbol characters throughout, no digit in front,
and no number. -/
def isSymbol (text : String) : Bool :=
  let word := text.toList
  !word.isEmpty && word.all isSymbolChar && !(word.take 1).any Char.isDigit && !isNumber word

/-- The value of a run of digits. -/
def digitsValue (ds : List Char) : Nat :=
  ds.foldl (fun n d => 10 * n + (d.toNat - '0'.toNat)) 0

/-- The value of a number, sign included. -/
def numberValue : List Char → Int
  | '-' :: ds => -(digitsValue ds : Int)
  | ds => digitsValue ds

/-- The atom a word spells. -/
def wordAtom (word : List Char) : Except SyntaxFault Atom :=
  if startsAsNumber word then
    if !isNumber word then .error (.malformedNumber (String.ofList word))
    else if numberValue word < Int64.minValue.toInt then .error .integerTooSmall
    else if Int64.maxValue.toInt < numberValue word then .error .integerTooLarge
    else .ok (.int (Int64.ofInt (numberValue word)))
  else if word = "true".toList then .ok (.bool true)
  else if word = "false".toList then .ok (.bool false)
  else .ok (.sym (String.ofList word))

/-- What a character means after a backslash. -/
def unescape? : Char → Option Char
  | 'n' => some '\n'
  | 't' => some '\t'
  | 'r' => some '\r'
  | '0' => some '\x00'
  | '\\' => some '\\'
  | '"' => some '"'
  | _ => none

/-- The rest of a string, from after its opening quote: what it stands for, the offset
after its closing quote, and the text that follows. -/
def scanString (start : Nat) : Nat → List Char → Except SyntaxError (List Char × Nat × List Char)
  | pos, [] => .error ⟨.unterminatedString, ⟨start, pos⟩⟩
  | pos, '"' :: rest => .ok ([], pos + 1, rest)
  | pos, ['\\'] => .error ⟨.unterminatedString, ⟨start, pos + 1⟩⟩
  | pos, '\\' :: c :: rest =>
    match unescape? c with
    | none => .error ⟨.unknownEscape c, ⟨pos, pos + 1 + c.utf8Size⟩⟩
    | some d => (scanString start (pos + 1 + c.utf8Size) rest).map fun r => (d :: r.1, r.2)
  | pos, c :: rest => (scanString start (pos + c.utf8Size) rest).map fun r => (c :: r.1, r.2)

/-- A string is followed by less text than it was read from. -/
theorem length_of_scanString {start pos : Nat} {cs : List Char} {r : List Char × Nat × List Char}
    (h : scanString start pos cs = .ok r) : r.2.2.length < cs.length := by
  fun_induction scanString start pos cs generalizing r with
  | case1 => simp at h
  | case2 => simp at h; subst h; simp
  | case3 => simp at h
  | case4 => simp at h
  | case5 pos c rest d hd ih =>
    cases hs : scanString start (pos + 1 + c.utf8Size) rest with
    | error e => simp [hs, Except.map] at h
    | ok q =>
      simp only [hs, Except.map, Except.ok.injEq] at h
      have := ih hs
      subst h
      simp only [List.length_cons]
      omega
  | case6 pos c rest _ _ _ ih =>
    cases hs : scanString start (pos + c.utf8Size) rest with
    | error e => simp [hs, Except.map] at h
    | ok q =>
      simp only [hs, Except.map, Except.ok.injEq] at h
      have := ih hs
      subst h
      simp only [List.length_cons]
      omega

/-- Characters that a comment goes on over. -/
def inComment (c : Char) : Bool := c != '\n' && c != '\r'

/-- Whether a comment may end before this text: at its end, before a newline, or before a
carriage return and a newline. A carriage return on its own ends no comment. -/
def endsComment : List Char → Bool
  | '\r' :: '\n' :: _ => true
  | '\r' :: _ => false
  | _ => true

/-- A parenthesis or an atom. -/
inductive Lexeme where
  | opening
  | closing
  | atom (value : Atom)
  deriving DecidableEq, Repr, Inhabited

/-- A lexeme and its place. -/
structure Token where
  lexeme : Lexeme
  span : Span
  deriving DecidableEq, Repr, Inhabited

/-- The tokens of a text up to its end, or up to the first error. -/
structure Scan where
  tokens : List Token
  error? : Option SyntaxError
  deriving DecidableEq, Repr, Inhabited

namespace Scan

/-- Nothing more was read. -/
def done : Scan := ⟨[], none⟩

/-- Nothing more could be read. -/
def failed (e : SyntaxError) : Scan := ⟨[], some e⟩

/-- One token more in front. -/
def cons (t : Token) (s : Scan) : Scan := ⟨t :: s.tokens, s.error?⟩

end Scan

/-- The tokens of the text `cs` that starts at byte `pos`. -/
def scan (pos : Nat) (cs : List Char) : Scan :=
  match cs with
  | [] => .done
  | c :: rest =>
    if isBlank c then scan (pos + 1) rest
    else if c = ';' then
      let after := rest.dropWhile inComment
      if endsComment after then scan (pos + 1 + byteCount (rest.takeWhile inComment)) after
      else .failed ⟨.strayCharacter c, ⟨pos, pos + 1⟩⟩
    else if c = '(' then (scan (pos + 1) rest).cons ⟨.opening, ⟨pos, pos + 1⟩⟩
    else if c = ')' then (scan (pos + 1) rest).cons ⟨.closing, ⟨pos, pos + 1⟩⟩
    else if c = '"' then
      match _h : scanString pos (pos + 1) rest with
      | .error e => .failed e
      | .ok r =>
        (scan r.2.1 r.2.2).cons ⟨.atom (.str (String.ofList r.1)), ⟨pos, r.2.1⟩⟩
    else if isSymbolChar c then
      let word := c :: rest.takeWhile isSymbolChar
      let stop := pos + byteCount word
      match wordAtom word with
      | .error f => .failed ⟨f, ⟨pos, stop⟩⟩
      | .ok a => (scan stop (rest.dropWhile isSymbolChar)).cons ⟨.atom a, ⟨pos, stop⟩⟩
    else .failed ⟨.strayCharacter c, ⟨pos, pos + c.utf8Size⟩⟩
termination_by cs.length
decreasing_by
  all_goals simp only [List.length_cons]
  · omega
  · have := (List.dropWhile_sublist inComment (l := rest)).length_le
    omega
  · omega
  · omega
  · have := length_of_scanString _h
    omega
  · have := (List.dropWhile_sublist isSymbolChar (l := rest)).length_le
    omega

end Kiln
