import Kiln.Toml.Basic
import Kiln.Toml.Number
/-!
# Reading TOML

A document is a sequence of lines: headers and values for keys, with comments and blank
lines between. Line breaks are a line feed, with a carriage return in front or without.
Arrays may go over several lines, tables between braces may not.
-/

namespace Kiln

namespace Toml

open Parse

/-- Blanks inside a line. -/
def isBlank (c : Char) : Bool := c == ' ' || c == '\t'

/-- Characters that text on one line can have. -/
def isPlain (c : Char) : Bool := c == '\t' || (' ' ≤ c && c ≠ '\x7f')

/-- Blanks, if any. -/
def blanks : Parse Unit := discard (span isBlank)

/-- The end of a line. -/
def newline : Parse Unit := word "\n" <|> word "\r\n"

/-- A comment up to the end of its line. -/
def comment : Parse Unit := do
  word "#"
  discard (span isPlain)

/-- What may stand between a value and the end of its line, and that end. -/
def endOfLine : Parse Unit := do
  blanks
  discard (optional comment)
  newline <|> stop

/-- Blanks, comments and line breaks. -/
def gaps : Parse Unit :=
  discard (many (discard (char isBlank) <|> newline <|> comment))

section Strings

/-- The character of a code point in base sixteen. -/
def codePoint (width : Nat) : Parse Char := do
  let cs ← (List.range width).mapM fun _ => char (isDigitOf 16)
  let n := ofDigits 16 cs
  if n.isValidChar then return Char.ofNat n else failure

/-- What stands behind a backslash. -/
def escape : Parse Char := do
  let c ← char fun _ => true
  match c with
  | 'b' => return '\x08'
  | 't' => return '\t'
  | 'n' => return '\n'
  | 'f' => return '\x0c'
  | 'r' => return '\r'
  | '"' => return '"'
  | '\\' => return '\\'
  | 'u' => codePoint 4
  | 'U' => codePoint 8
  | _ => failure

/-- One character of a string with escapes, on one line. -/
def escapedChar : Parse Char :=
  (do word "\\"; escape) <|> char fun c => isPlain c && c ≠ '"' && c ≠ '\\'

/-- A string with escapes, on one line. -/
def basicString : Parse String := do
  word "\""
  let cs ← many escapedChar
  word "\""
  return String.ofList cs

/-- A string without escapes, on one line. -/
def literalString : Parse String := do
  word "'"
  let cs ← span fun c => isPlain c && c ≠ '\''
  word "'"
  return String.ofList cs

/-- A line break inside a string. -/
def lineBreak : Parse (List Char) := do
  newline
  return ['\n']

/-- A backslash at the end of a line, which swallows blanks and line breaks. -/
def lineJoin : Parse (List Char) := do
  word "\\"
  blanks
  newline
  discard (many (discard (char isBlank) <|> newline))
  return []

/-- The quotes at the end of a string over several lines: up to two may belong to it. -/
def closing (quote : Char) : Parse (List Char) := do
  let quotes ← span (· == quote)
  if 3 ≤ quotes.length && quotes.length ≤ 5 then return quotes.drop 3 else failure

/-- One or two quotes inside a string over several lines. -/
def innerQuotes (quote : Char) : Parse (List Char) := do
  let quotes ← span (· == quote)
  if quotes.length = 1 || quotes.length = 2 then return quotes else failure

/-- A string over several lines between three quotes, of pieces that do not start with a
quote. A line break right behind the opening quotes is dropped. -/
def longString (quote : Char) (piece : Parse (List Char)) : Parse String := do
  word (String.ofList [quote, quote, quote])
  discard (optional newline)
  let pieces ← many (piece <|> innerQuotes quote)
  let last ← closing quote
  return String.ofList (pieces.flatten ++ last)

/-- A piece of a string with escapes, over several lines. -/
def basicPiece : Parse (List Char) :=
  lineJoin <|> lineBreak <|> (do return [← escapedChar])

/-- A piece of a string without escapes, over several lines. -/
def literalPiece : Parse (List Char) :=
  lineBreak <|> (do return [← char fun c => isPlain c && c ≠ '\''])

/-- A string. -/
def string : Parse String :=
  longString '"' basicPiece <|> longString '\'' literalPiece <|> basicString <|> literalString

end Strings

section Keys

/-- Characters of a key without quotes. -/
def isKeyChar (c : Char) : Bool := c.isAlphanum || c == '_' || c == '-'

/-- One step of a key. -/
def keyStep : Parse String :=
  basicString <|> literalString <|> do
    let c ← char isKeyChar
    return String.ofList (c :: (← span isKeyChar))

/-- The most levels that values and keys can have. -/
def levels : Nat := 79

/-- A key: the steps that lead to it, and the last one. Blanks may surround the steps. -/
def key : Parse (List String × String) := do
  blanks
  let first ← keyStep
  blanks
  let others ← many do
    word "."
    blanks
    let step ← keyStep
    blanks
    return step
  let steps := first :: others
  if steps.length ≤ levels then return (steps.dropLast, steps.getLast?.getD "") else failure

end Keys

section Values

/-- A bare value. -/
def scalar : Parse Value :=
  (.text <$> string) <|> (.moment <$> moment) <|> (.float <$> float) <|> (.integer <$> integer)
    <|> (do word "true"; return .bool true) <|> (do word "false"; return .bool false)

/-- Items between commas. -/
def separated (p : Parse α) : Parse (List α) :=
  (do
    let first ← p
    let others ← many do
      word ","
      p
    return first :: others)
    <|> pure []

/-- An array of values. A comma may stand behind the last one. -/
def array (value : Parse Value) : Parse Value := do
  word "["
  let items ← separated do
    gaps
    let v ← value
    gaps
    return v
  unless items.isEmpty do discard (optional (word ","))
  gaps
  word "]"
  return .array items

/-- A key with its value. -/
def pair (value : Parse Value) : Parse (List String × String × Value) := do
  let (path, last) ← key
  word "="
  blanks
  let v ← value
  return (path, last, v)

/-- A table between braces. -/
def closedTable (value : Parse Value) : Parse Value := do
  word "\x7b"
  let pairs ← separated do
    let p ← pair value
    blanks
    return p
  blanks
  word "\x7d"
  match close pairs with
  | some v => return v
  | none => failure

/-- A value in which others lie at most the given number of levels deep. -/
def valueWithin : Nat → Parse Value
  | 0 => scalar
  | n + 1 => scalar <|> array (valueWithin n) <|> closedTable (valueWithin n)

/-- A value. -/
def value : Parse Value := valueWithin levels

end Values

/-- A header, or a value for a key. -/
def line : Parse Line :=
  header "[[" "]]" .next <|> header "[" "]" .table <|> do
    let (path, last, v) ← pair value
    endOfLine
    return .entry path last v
where
  /-- A key between brackets on a line of its own. -/
  header (opening closing : String) (make : List String → String → Line) : Parse Line := do
    word opening
    let (path, last) ← key
    word closing
    endOfLine
    return make path last

/-- The lines of a document. A mark of the order of bytes in front is ignored. -/
def lines : Parse (List Line) := do
  discard (optional (word "\ufeff"))
  gaps
  many do
    let l ← line
    gaps
    return l

/-- Reads a document. -/
def read (text : String) : Option Value := do
  ofLines (← lines.all text.toList)

end Toml

end Kiln
