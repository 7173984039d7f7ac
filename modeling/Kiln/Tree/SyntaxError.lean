import Kiln.Text.Span
import Kiln.Template.HoleKind
/-!
# What can be wrong with a text

Reading a text, a type or the header of a template fails for one of the causes of
`SyntaxFault`. `SyntaxFault.message` and `SyntaxFault.help?` word them; a
`SyntaxError` adds the span the cause was found at.
-/

namespace Kiln

/-- Why a text was refused. -/
inductive SyntaxFault where
  /-- The text ends inside a list. -/
  | unclosedList
  /-- A list is closed that was never opened. -/
  | strayClose
  /-- A backslash stands before a character that no escape has. -/
  | unknownEscape (c : Char)
  /-- The text ends inside a string. -/
  | unterminatedString
  /-- A word starts as a number and goes on as something else. -/
  | malformedNumber (word : String)
  /-- An integer lies above the largest of 64 bits. -/
  | integerTooLarge
  /-- An integer lies below the smallest of 64 bits. -/
  | integerTooSmall
  /-- A character that can start nothing. -/
  | strayCharacter (c : Char)
  /-- One expression was asked for, and the text holds another number of them. -/
  | formCount (found : Nat)
  /-- The tree does not spell a type; lists get a hint at the compound types. -/
  | notAType (shown : String) (isList : Bool)
  /-- The text of a template holds no form, or several. -/
  | templateCount
  /-- The form is not a template. -/
  | notATemplate
  /-- The template ends before its holes are listed. -/
  | missingHoleList
  /-- The holes are not given as a list. -/
  | holeListExpected
  /-- A hole is not given as a pair of symbols. -/
  | holePairExpected
  /-- No kind of hole has this name. -/
  | unknownHoleKind (kind : String)
  /-- A hole's name has characters a hole's name cannot have. -/
  | badHoleName (name : String)
  /-- Two holes have one name. -/
  | repeatedHole (name : String)
  /-- The template has no body. -/
  | emptyTemplate
  /-- A pasted hole is not closed. -/
  | unclosedHole (symbol : String)
  /-- What a pasted hole encloses is not a hole's name. -/
  | badPastedName (name symbol : String)
  /-- The body names a hole that the header lacks. -/
  | undeclaredHole (hole template : String)
  /-- A hole that is no identifier stands inside a longer symbol. -/
  | unpastableHole (hole : String) (kind : HoleKind) (symbol : String)
  deriving DecidableEq, Repr, Inhabited

namespace SyntaxFault

/-- The wording of each cause. -/
def message : SyntaxFault → String
  | unclosedList => "unclosed `(`"
  | strayClose => "unexpected `)`"
  | unknownEscape c => "unknown escape `\\" ++ c.toString ++ "`"
  | unterminatedString => "unterminated string literal"
  | malformedNumber word => "invalid numeric literal `" ++ word ++ "`"
  | integerTooLarge => "integer literal out of range: number too large to fit in target type"
  | integerTooSmall => "integer literal out of range: number too small to fit in target type"
  | strayCharacter c => "unexpected character `" ++ c.toString ++ "`"
  | formCount found => "expected a single expression, found " ++ toString found
  | notAType shown _ => "`" ++ shown ++ "` is not a type"
  | templateCount => "expected exactly one `(template ...)` form"
  | notATemplate => "expected a `(template ...)` form"
  | missingHoleList => "template is missing its hole list"
  | holeListExpected => "expected a list of `(hole kind)` pairs"
  | holePairExpected => "expected `(hole kind)`"
  | unknownHoleKind kind => "unknown hole kind `" ++ kind ++ "`"
  | badHoleName name => "invalid hole name `" ++ name ++ "`"
  | repeatedHole name => "hole `" ++ name ++ "` declared twice"
  | emptyTemplate => "template has an empty body"
  | unclosedHole symbol => "unclosed `$\x7b` in `" ++ symbol ++ "`"
  | badPastedName name symbol => "invalid hole name `" ++ name ++ "` in `" ++ symbol ++ "`"
  | undeclaredHole hole template =>
    "hole `$" ++ hole ++ "` is not declared by template `" ++ template ++ "`"
  | unpastableHole hole kind symbol =>
    "hole `$" ++ hole ++ "` is " ++ kind.describe ++ " and cannot be pasted into `" ++ symbol ++ "`"

/-- Advice that goes with some of the causes. -/
def help? : SyntaxFault → Option String
  | unclosedList => some "add a matching `)`"
  | strayClose => some "remove the extra closing parenthesis"
  | unterminatedString => some "add a closing `\"`"
  | notAType _ true => some "compound types are `(ptr T)` and `(seq T)`"
  | unknownHoleKind _ => some "hole kinds are `ident`, `type` and `fragment`"
  | _ => none

end SyntaxFault

/-- A cause and its place in the text that was read. -/
structure SyntaxError where
  /-- Why the text was refused. -/
  fault : SyntaxFault
  /-- Where the cause was found. -/
  span : Span
  deriving DecidableEq, Repr, Inhabited

namespace SyntaxError

/-- The wording of the cause. -/
def message (e : SyntaxError) : String := e.fault.message

/-- The advice, if there is any. -/
def help? (e : SyntaxError) : Option String := e.fault.help?

/-- A message led by the line and the column that a span starts at. -/
def locate (text : String) (span : Span) (message : String) : String :=
  let p := span.position text
  toString p.line ++ ":" ++ toString p.column ++ ": " ++ message

/-- The message, led by its place in the text that was read. -/
def describe (e : SyntaxError) (text : String) : String := locate text e.span e.message

end SyntaxError

end Kiln
