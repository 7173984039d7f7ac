import Kiln.NameMap
import Kiln.Typing.TypeExpr
/-!
# Templates

A template is a fragment with holes. In its body the symbol `$h` stands for whatever
fills the hole `h`, and `${h}` inside a longer symbol for the name that fills it.
A `Template` has been checked: each hole its body uses is declared, and only holes
for names are pasted into symbols.
-/

namespace Kiln

/-- A part of a symbol: text, or a hole pasted into it. -/
inductive Piece where
  | text (cs : List Char)
  | hole (name : String)
  deriving DecidableEq, Repr

/-- How a symbol of a template's body is to be read. -/
inductive SymbolShape where
  /-- It stands for itself. -/
  | plain
  /-- It is a hole. -/
  | hole (name : String)
  /-- Holes are pasted into it. -/
  | pasted (pieces : List Piece)
  deriving DecidableEq, Repr

/-- Whether a hole can have this name: letters, digits and underscores, no digit first. -/
def isHoleName (cs : List Char) : Bool :=
  !cs.isEmpty && cs.all (fun c => c.isAlphanum || c == '_') && !(cs.take 1).any Char.isDigit

/-- The piece a run of text makes; an empty run makes none. The run is given last
character first. -/
def textPiece (run : List Char) : List Piece :=
  if run.isEmpty then [] else [.text run.reverse]

/-- The pieces of the rest of a symbol. `run` holds the characters since the last piece,
last one first; `inHole` says whether they are a hole's name. -/
def piecesFrom (symbol : String) (inHole : Bool) (run : List Char) :
    List Char → Except SyntaxFault (List Piece)
  | [] => if inHole then .error (.unclosedHole symbol) else .ok (textPiece run)
  | '$' :: '\x7b' :: rest =>
    if inHole then piecesFrom symbol true ('\x7b' :: '$' :: run) rest
    else (piecesFrom symbol true [] rest).map (textPiece run ++ ·)
  | c :: rest =>
    if inHole && c == '\x7d' then
      if isHoleName run.reverse then
        (piecesFrom symbol false [] rest).map (.hole (String.ofList run.reverse) :: ·)
      else .error (.badPastedName (String.ofList run.reverse) symbol)
    else piecesFrom symbol inHole (c :: run) rest

/-- Whether the characters open a pasted hole somewhere. -/
def opensHole : List Char → Bool
  | [] => false
  | '$' :: '\x7b' :: _ => true
  | _ :: rest => opensHole rest

/-- The shape of a symbol. -/
def symbolShape (symbol : String) : Except SyntaxFault SymbolShape :=
  match symbol.toList with
  | '$' :: name =>
    if isHoleName name then .ok (.hole (String.ofList name)) else pastedShape ('$' :: name)
  | cs => pastedShape cs
where
  /-- The shape of a symbol that is no hole itself. -/
  pastedShape (cs : List Char) : Except SyntaxFault SymbolShape :=
    if opensHole cs then (piecesFrom symbol false [] cs).map .pasted else .ok .plain

/-- The holes a symbol uses, each with whether it is pasted. -/
def SymbolShape.holes : SymbolShape → List (String × Bool)
  | plain => []
  | hole name => [(name, false)]
  | pasted pieces => pieces.filterMap fun
    | .hole name => some (name, true)
    | .text _ => none

/-- The declared holes. -/
abbrev Holes := NameMap HoleKind

/-- Refuses a use of a hole that is not declared, or is pasted and not for a name. -/
def checkHole (template : String) (holes : Holes) (symbol : String) (use : String × Bool) :
    Except SyntaxFault Unit :=
  match holes.find? use.1 with
  | none => .error (.undeclaredHole use.1 template)
  | some kind =>
    if use.2 && kind ≠ .ident then .error (.unpastableHole use.1 kind symbol) else .ok ()

/-- Refuses a symbol that uses a hole wrongly. -/
def checkSymbol (template : String) (holes : Holes) (symbol : String × Span) :
    Except SyntaxError Unit :=
  let checked := do
    let shape ← symbolShape symbol.1
    shape.holes.forM (checkHole template holes symbol.1)
  checked.mapError (⟨·, symbol.2⟩)

/-- Refuses a body that uses a hole wrongly, at the first such symbol. -/
def checkHoles (template : String) (holes : Holes) (body : Tree) : Except SyntaxError Unit :=
  body.symbols.forM (checkSymbol template holes)

/-- A fragment with typed holes. -/
structure Template where
  /-- What the template is called in diagnostics. -/
  name : String
  /-- The holes and their kinds. -/
  holes : Holes
  /-- What is instantiated. -/
  body : Fragment
  /-- Every hole of the body is used as declared. -/
  checked : checkHoles name holes body.root = .ok ()

namespace Template

/-- A template of a body that has been read already. -/
def make (name : String) (holes : Holes) (body : Fragment) : Except SyntaxError Template :=
  match h : checkHoles name holes body.root with
  | .ok () => .ok ⟨name, holes, body, h⟩
  | .error e => .error e

/-- The kind a hole is declared with. -/
def holeKind? (t : Template) (hole : String) : Option HoleKind := t.holes.find? hole

/-- Reads one `(hole kind)` pair of a header, given the holes that stand before it. -/
def readHole (before : List (String × HoleKind)) (entry : Tree) :
    Except SyntaxError (String × HoleKind) :=
  let pair := entry.items?.getD []
  match pair[0]?.bind Tree.symbol?, pair[1]?.bind Tree.symbol? with
  | some hole, some word =>
    match HoleKind.ofWord? word, pair.length == 2 with
    | some kind, true =>
      if !isHoleName hole.toList then .error ⟨.badHoleName hole, entry.span⟩
      else if before.any (·.1 == hole) then .error ⟨.repeatedHole hole, entry.span⟩
      else .ok (hole, kind)
    | _, _ => .error ⟨.unknownHoleKind word, entry.span⟩
  | _, _ => .error ⟨.holePairExpected, entry.span⟩

/-- Reads the pairs of a header. -/
def readHoles (entries : List Tree) : Except SyntaxError (List (String × HoleKind)) :=
  entries.foldlM (fun before entry => do return before ++ [← readHole before entry]) []

/-- Reads `(template ((hole kind) ...) form ...)`. A single form is the body itself;
several are grouped under `do`. -/
def read (name text : String) : Except SyntaxError Template := do
  let forms ← readForms text
  let [form] := forms | throw ⟨.templateCount, Span.whole text⟩
  let some args := form.form? "template" | throw ⟨.notATemplate, form.span⟩
  let header :: body := args | throw ⟨.missingHoleList, form.span⟩
  let some entries := header.items? | throw ⟨.holeListExpected, header.span⟩
  let holes ← readHoles entries
  let root ← match body with
    | [] => throw ⟨.emptyTemplate, form.span⟩
    | [single] => pure single
    | many => pure (.node (.leaf (.sym "do") form.span :: many) form.span)
  make name (NameMap.ofList holes) ⟨root, ⟨name, text⟩⟩

end Template

end Kiln
