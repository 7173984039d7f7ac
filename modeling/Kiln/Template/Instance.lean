import Kiln.Template.Basic
/-!
# Instances of templates

`Template.instantiate` fills every hole of a template. The bindings are checked
first, so that a mismatch never leaves a tree that is filled in part: the names bound
have to be the holes declared, each with a value of its kind, and a name that fills a
hole has to be one the language can read.
-/

namespace Kiln

/-- What fills a hole. -/
inductive Binding where
  | ident (name : String)
  | type (type : TypeExpr)
  | fragment (fragment : Fragment)

namespace Binding

/-- The kind of hole a binding fills. -/
def kind : Binding → HoleKind
  | ident _ => .ident
  | type _ => .type
  | fragment _ => .fragment

/-- The tree that takes the place of a hole at `s`. -/
def toTree (s : Span) : Binding → Tree
  | ident name => .leaf (.sym name) s
  | type t => t.tree.respan s
  | fragment f => f.root.respan s

end Binding

/-- The bindings of some holes. -/
abbrev Bindings := NameMap Binding

/-- Why bindings do not fit a template. -/
inductive BindingError where
  /-- A hole has no binding. -/
  | unbound (template hole : String)
  /-- A hole is bound to a value of another kind. -/
  | kindMismatch (hole : String) (expected found : HoleKind)
  /-- A binding names no hole. -/
  | unexpected (template hole : String)
  /-- A name that fills a hole is none. -/
  | invalidIdentifier (hole value : String)
  deriving DecidableEq, Repr

/-- The wording of each cause. -/
def BindingError.message : BindingError → String
  | unbound template hole =>
    "hole `$" ++ hole ++ "` of template `" ++ template ++ "` has no binding"
  | kindMismatch hole expected found =>
    "hole `$" ++ hole ++ "` expects " ++ expected.describe ++ ", but was bound to "
      ++ found.describe
  | unexpected template hole =>
    "binding `" ++ hole ++ "` does not name a hole of template `" ++ template ++ "`"
  | invalidIdentifier hole value =>
    "`" ++ value ++ "` is not a valid identifier for hole `$" ++ hole ++ "`"

/-- A name that can fill a hole: a symbol that holds no hole itself. -/
def isFillingName (name : String) : Bool := isSymbol name && !name.toList.contains '$'

namespace Template

/-- Refuses a binding that does not fit its hole. -/
def checkBinding (t : Template) (entry : String × Binding) : Except BindingError Unit :=
  match t.holes.find? entry.1 with
  | none => .error (.unexpected t.name entry.1)
  | some expected =>
    if entry.2.kind ≠ expected then .error (.kindMismatch entry.1 expected entry.2.kind)
    else match entry.2 with
      | .ident value =>
        if isFillingName value then .ok () else .error (.invalidIdentifier entry.1 value)
      | _ => .ok ()

/-- Refuses a hole without a binding. -/
def checkBound (t : Template) (bindings : Bindings) (hole : String) : Except BindingError Unit :=
  if bindings.contains hole then .ok () else .error (.unbound t.name hole)

/-- The text a piece of a symbol comes to. -/
def pieceText (bindings : Bindings) : Piece → List Char
  | .text cs => cs
  | .hole name =>
    match bindings.find? name with
    | some (.ident value) => value.toList
    | _ => ['$', '\x7b'] ++ name.toList ++ ['\x7d']

/-- What takes the place of a symbol at `s`. -/
def substituteSymbol (bindings : Bindings) (symbol : String) (s : Span) : Tree :=
  match symbolShape symbol with
  | .ok (.hole name) =>
    match bindings.find? name with
    | some b => b.toTree s
    | none => .leaf (.sym symbol) s
  | .ok (.pasted pieces) =>
    .leaf (.sym (String.ofList (pieces.flatMap (pieceText bindings)))) s
  | _ => .leaf (.sym symbol) s

mutual

/-- The tree with every hole filled. -/
def substitute (bindings : Bindings) : Tree → Tree
  | .leaf (.sym symbol) s => substituteSymbol bindings symbol s
  | .leaf a s => .leaf a s
  | .node items s => .node (substituteAll bindings items) s

/-- The trees with every hole filled. -/
def substituteAll (bindings : Bindings) : List Tree → List Tree
  | [] => []
  | t :: ts => substitute bindings t :: substituteAll bindings ts

end

/-- Fills every hole of the template, or tells why the bindings do not fit. Bindings are
looked at before holes, both by increasing name. -/
def instantiate (t : Template) (bindings : Bindings) : Except BindingError Fragment := do
  bindings.entries.forM t.checkBinding
  t.holes.names.forM (t.checkBound bindings)
  return ⟨substitute bindings t.body.root, t.body.origin⟩

end Template

end Kiln
