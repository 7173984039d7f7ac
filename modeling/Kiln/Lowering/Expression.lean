import Kiln.Lowering.Names
/-!
# Expressions

How an expression becomes code. Lowering is compositional: `Lowering` says what one
tree comes to wherever it stands, and that of a list is made of those of its items,
so each form is a function of its operands (`Operand`), which it lowers in the order
in which they will be evaluated.

A body of a function, a `do`, the body of a `while` and the branches of an `if` open a
scope. A `let` adds to the innermost scope, and hides what the name meant before; each
`let` and each parameter has a slot of its own.
-/

namespace Kiln

/-- A variable in scope. -/
structure Local where
  name : String
  slot : Nat
  type : Ty
  deriving Repr

/-- The variables in scope, and how many slots are taken. -/
structure Locals where
  /-- The scopes, the innermost first, each with its latest variable first. -/
  scopes : List (List Local)
  slots : Nat

namespace Locals

/-- One empty scope. -/
def empty : Locals := ⟨[[]], 0⟩

/-- A new variable in the innermost scope. -/
def declare (ls : Locals) (name : String) (type : Ty) : Locals :=
  match ls.scopes with
  | scope :: outer => ⟨(⟨name, ls.slots, type⟩ :: scope) :: outer, ls.slots + 1⟩
  | [] => ⟨[], ls.slots + 1⟩

/-- The variable a name means. -/
def find? (ls : Locals) (name : String) : Option Local :=
  ls.scopes.flatten.find? (·.name = name)

/-- Inside a new scope. -/
def enter (ls : Locals) : Locals := ⟨[] :: ls.scopes, ls.slots⟩

/-- Outside the innermost scope; its slots stay taken. -/
def leave (ls : Locals) : Locals := ⟨ls.scopes.tail, ls.slots⟩

end Locals

/-- What lowering does: it may declare variables, and it may refuse. -/
abbrev LowerM := StateT Locals (Except LoweringError)

/-- What a tree comes to: its code and its type. -/
abbrev Lowering := LowerM (Code × Ty)

/-- A part of a list, with what it comes to. -/
abbrev Operand := Tree × Lowering

/-- Integers stand for each other whatever their width, and pointers to bytes and other
pointers stand for each other. -/
def isAssignable (expected found : Ty) : Bool :=
  expected = found || (expected.isInteger && found.isInteger) ||
    match expected, found with
    | .ptr a, .ptr b => a = .u8 || b = .u8
    | _, _ => false

/-- Types whose values can be compared for equality. -/
def isComparable (left right : Ty) : Bool :=
  match left, right with
  | .ptr _, .ptr _ | .bool, .bool | .str, .str | .unit, .unit => true
  | .ptr _, other | other, .ptr _ => other.isInteger
  | left, right => left.isInteger && right.isInteger

/-- Types whose values can be taken for one another. -/
def isCastable (found wanted : Ty) : Bool :=
  found = wanted ||
    match wanted, found with
    | .u8, .bool | .i64, .bool | .u64, .bool => true
    | .u8, .ptr _ | .i64, .ptr _ | .u64, .ptr _ => true
    | .ptr _, .ptr _ => true
    | .u8, t | .i64, t | .u64, t | .bool, t | .ptr _, t => t.isInteger
    | _, _ => false

namespace Lowering

variable (names : Names)

/-- Refuses the unit. -/
def fail (f : LoweringFault) (s : Span) : LowerM α := liftM (refuse f s : Except LoweringError α)

/-- Refuses a form that lacks parts or has too many. -/
def malformed (form shape : String) (s : Span) : LowerM α := fail (.malformed form shape) s

/-- Lowers inside a scope of its own. -/
def inScope (x : LowerM α) : LowerM α := do
  modify Locals.enter
  let a ← x
  modify Locals.leave
  return a

/-- Lowers operands one after the other; the type is that of the last. -/
def items (last : Ty) : List Operand → LowerM (List Code × Ty)
  | [] => return ([], last)
  | o :: os => do
    let (code, type) ← o.2
    let (codes, type) ← items type os
    return (code :: codes, type)

/-- A sequence, in a scope of its own. -/
def sequence (os : List Operand) : Lowering :=
  inScope do
    let (codes, type) ← items .unit os
    return (.block codes, type)

/-- An operand that has to have a type. -/
def expect (o : Operand) (expected : Ty) : LowerM Code := do
  let (code, found) ← o.2
  if isAssignable expected found then return code
  else fail (.typeExpected expected found) o.1.span

/-- An operand that has to be a number. -/
def expectInteger (o : Operand) : LowerM (Code × Ty) := do
  let (code, found) ← o.2
  if found.isInteger then return (code, found)
  else fail (.integerExpected found) o.1.span

/-- An operand that has to be a pointer: its code and what it points at. -/
def expectPointer (o : Operand) : LowerM (Code × Ty) := do
  let (code, found) ← o.2
  match found with
  | .ptr target => return (code, target)
  | other => fail (.pointerExpected other) o.1.span

/-- An operand that has to point at something that memory can hold. -/
def expectPlace (o : Operand) : LowerM (Code × Ty) := do
  let (code, target) ← expectPointer o
  if target.isStorable then return (code, target)
  else fail (.notInMemory target) o.1.span

/-- Operands that each have to have a type. -/
def expectAll : List Operand → List Ty → LowerM (List Code)
  | o :: os, t :: ts => do
    let code ← expect o t
    return code :: (← expectAll os ts)
  | _, _ => return []

/-- A field of a struct, by its name. -/
def fieldOf (ref : StructRef) (name : Tree) : LowerM (Nat × Field) := do
  let some wanted := name.symbol? | fail (.fieldNameExpected name.render) name.span
  let layout := (names.layouts.find? ref).getD ⟨[], 0, 1⟩
  match layout.fieldIndex? wanted, layout.field? wanted with
  | some i, some f => return (i, f)
  | _, _ => fail (.unknownField ref.name wanted (layout.fields.map (·.name))) name.span

/-- A variable or a global. -/
def name (symbol : String) (s : Span) : Lowering := do
  match (← get).find? symbol with
  | some v => return (.getLocal v.slot, v.type)
  | none => match names.ownGlobal? symbol with
    | some (i, type) => return (.getGlobal i, type)
    | none => match names.foreignGlobal? symbol with
      | some (home, i, type) => return (.foreignGlobal home i, type)
      | none => fail (.unknownName symbol (names.function? symbol).isSome) s

/-- `(let name value)` -/
def bind (os : List Operand) (s : Span) : Lowering := do
  let [(target, _), (_, value)] := os | malformed "let" "(let name value)" s
  let symbol ← declaredName target .slot
  let (code, type) ← value
  let ls ← get
  set (ls.declare symbol type)
  return (.setLocal ls.slots code, .unit)

/-- `(set name value)` -/
def assign (os : List Operand) (s : Span) : Lowering := do
  let [(target, _), value] := os | malformed "set" "(set name value)" s
  let some symbol := target.symbol? | fail .targetExpected target.span
  match (← get).find? symbol with
  | some v => return (.setLocal v.slot (← expect value v.type), .unit)
  | none => match names.ownGlobal? symbol with
    | some (i, type) => return (.setGlobal i (← expect value type), .unit)
    | none =>
      if (names.foreignGlobal? symbol).isSome then fail (.foreignVariable symbol) target.span
      else fail (.unknownVariable symbol) target.span

/-- `(if cond then [else])`. Branches of one type, or both numbers, make a value; others
are run for what they do. -/
def branch (os : List Operand) (s : Span) : Lowering := do
  match os with
  | [cond, onTrue] =>
    let test ← expect cond .bool
    let (yes, _) ← inScope onTrue.2
    return (.branch test yes none, .unit)
  | [cond, onTrue, onFalse] =>
    let test ← expect cond .bool
    let (yes, left) ← inScope onTrue.2
    let (no, right) ← inScope onFalse.2
    let type := if left = right || (left.isInteger && right.isInteger) then left else .unit
    return (.branch test yes (some no), type)
  | _ => malformed "if" "(if cond then [else])" s

/-- `(while cond body ...)` -/
def loop (os : List Operand) (s : Span) : Lowering := do
  let cond :: body := os | malformed "while" "(while cond body ...)" s
  let test ← expect cond .bool
  let (code, _) ← sequence body
  return (.loop test code, .unit)

/-- Two or more truth values, joined from the left. -/
def chain (word : String) (join : Code → Code → Code) (os : List Operand) (s : Span) :
    Lowering := do
  let first :: second :: rest := os | malformed word ("(" ++ word ++ " a b ...)") s
  let code ← expect first .bool
  let code ← (second :: rest).foldlM (fun code o => return join code (← expect o .bool)) code
  return (code, .bool)

/-- `(not value)` -/
def negation (os : List Operand) (s : Span) : Lowering := do
  let [value] := os | malformed "not" "(not value)" s
  return (.not (← expect value .bool), .bool)

/-- `(sizeof Type)` -/
def sizeOf (os : List Operand) (s : Span) : Lowering := do
  let [(spelled, _)] := os | malformed "sizeof" "(sizeof Type)" s
  let type ← names.resolveType spelled
  return (.const (.int (type.size names.layouts).toInt64), .u64)

/-- `(zeroed Type)` -/
def zeroed (os : List Operand) (s : Span) : Lowering := do
  let [(spelled, _)] := os | malformed "zeroed" "(zeroed Type)" s
  let type ← names.resolveType spelled
  return (.const (.zeroed names.layouts type), type)

/-- `(field pointer name)`, the address of a field. -/
def fieldPointer (os : List Operand) (s : Span) : Lowering := do
  let [base, (field, _)] := os | malformed "field" "(field pointer name)" s
  let (code, target) ← expectPointer base
  let .struct ref := target | fail (.structPointerExpected target) base.1.span
  let (_, f) ← fieldOf names ref field
  return (.fieldPtr code f.offset f.type, .ptr f.type)

/-- `(. value name)`, the field of a struct value. -/
def fieldValue (os : List Operand) (s : Span) : Lowering := do
  let [base, (field, _)] := os | malformed "." "(. value name)" s
  let (code, type) ← base.2
  let .struct ref := type | fail (.structValueExpected type) base.1.span
  let (i, f) ← fieldOf names ref field
  return (.fieldGet code i, f.type)

/-- `(make Struct value ...)` -/
def make (os : List Operand) (s : Span) : Lowering := do
  let (spelled, _) :: values := os | malformed "make" "(make Struct value ...)" s
  let type ← names.resolveType spelled
  let .struct ref := type | fail (.structTypeExpected type) spelled.span
  let fields := ((names.layouts.find? ref).map (·.fields)).getD []
  if fields.length ≠ values.length then
    fail (.fieldCount ref.name fields.length values.length) s
  else return (.make ref (← expectAll values (fields.map (·.type))), type)

/-- `(load pointer)` -/
def load (os : List Operand) (s : Span) : Lowering := do
  let [ptr] := os | malformed "load" "(load pointer)" s
  let (code, type) ← expectPlace ptr
  return (.load code type, type)

/-- `(store pointer value)` -/
def store (os : List Operand) (s : Span) : Lowering := do
  let [ptr, value] := os | malformed "store" "(store pointer value)" s
  let (code, type) ← expectPlace ptr
  return (.store code (← expect value type) type, .unit)

/-- `(cast Type value)` -/
def cast (os : List Operand) (s : Span) : Lowering := do
  let [(spelled, _), value] := os | malformed "cast" "(cast Type value)" s
  let wanted ← names.resolveType spelled
  let (code, found) ← value.2
  if isCastable found wanted then return (.cast code wanted, wanted)
  else fail (.notCastable found wanted) s

/-- `(offset pointer count)`, the address so many values on. -/
def offset (os : List Operand) (s : Span) : Lowering := do
  let [ptr, count] := os | malformed "offset" "(offset pointer count)" s
  let (code, target) ← expectPointer ptr
  let (n, _) ← expectInteger count
  return (.offset code n (target.size names.layouts), .ptr target)

/-- `(addr pointer)`, the address as a number. -/
def address (os : List Operand) (s : Span) : Lowering := do
  let [ptr] := os | malformed "addr" "(addr pointer)" s
  let (code, _) ← expectPointer ptr
  return (.addr code, .u64)

/-- `(seq Type item ...)` -/
def sequenceOf (os : List Operand) (s : Span) : Lowering := do
  let (spelled, _) :: values := os | malformed "seq" "(seq Type item ...)" s
  let elem ← names.resolveType spelled
  if elem.isStorable then
    return (.seqLit elem (← expectAll values (values.map fun _ => elem)), .seq elem)
  else fail (.unsequenceable elem) spelled.span

/-- `(len sequence)` -/
def length (os : List Operand) (s : Span) : Lowering := do
  let [seq] := os | malformed "len" "(len sequence)" s
  let (code, found) ← seq.2
  let .seq _ := found | fail (.sequenceExpected found) seq.1.span
  return (.seqLen code, .u64)

/-- `(seq_copy pointer sequence)` -/
def copySequence (os : List Operand) (s : Span) : Lowering := do
  let [dst, seq] := os | malformed "seq_copy" "(seq_copy pointer sequence)" s
  let (place, target) ← expectPointer dst
  let (code, found) ← seq.2
  if found = .seq target then return (.seqCopy place code, .unit)
  else fail (.notCopyable found target) seq.1.span

/-- One of the forms. -/
def form (f : Form) (os : List Operand) (s : Span) : Lowering :=
  match f with
  | .sequence => sequence os
  | .bind => bind os s
  | .assign => assign names os s
  | .branch => branch os s
  | .loop => loop os s
  | .all => chain "and" .and os s
  | .any => chain "or" .or os s
  | .negation => negation os s
  | .sizeOf => sizeOf names os s
  | .zeroed => zeroed names os s
  | .fieldPointer => fieldPointer names os s
  | .fieldValue => fieldValue names os s
  | .make => make names os s
  | .load => load os s
  | .store => store os s
  | .cast => cast names os s
  | .offset => offset names os s
  | .address => address os s
  | .sequenceOf => sequenceOf names os s
  | .length => length os s
  | .copySequence => copySequence os s

/-- An operator between two values; a minus may also stand before one. -/
def binary (op : BinaryOp) (os : List Operand) (s : Span) : Lowering := do
  match os with
  | [left, right] =>
    let (a, leftType) ← left.2
    let (b, rightType) ← right.2
    if op.isEquality then
      if isComparable leftType rightType then return (.binary op a b, .bool)
      else fail (.incomparable leftType rightType) s
    else if !leftType.isInteger then fail (.integerExpected leftType) left.1.span
    else if !rightType.isInteger then fail (.integerExpected rightType) right.1.span
    else return (.binary op a b, if op.isArithmetic then leftType else .bool)
  | [operand] =>
    if op = .sub then
      let (code, type) ← expectInteger operand
      return (.binary .sub (.const (.int 0)) code, type)
    else fail .operandCount s
  | _ => fail .operandCount s

/-- The arguments of a call. -/
def arguments (function : String) : List Param → List Operand → LowerM (List Code)
  | p :: ps, o :: os => do
    let (code, found) ← o.2
    if isAssignable p.2 found then return code :: (← arguments function ps os)
    else fail (.wrongArgument p.1 function p.2 found) o.1.span
  | _, _ => return []

/-- A call of a function. -/
def call (function : String) (head : Tree) (os : List Operand) (s : Span) : Lowering := do
  let some (callee, params, result) := names.function? function
    | fail (.unknownFunction function) head.span
  if params.length ≠ os.length then
    fail (.argumentCount function params.length os.length) s
  else return (.call callee (← arguments function params os), result)

/-- What an atom comes to. -/
def ofAtom (a : Atom) (s : Span) : Lowering :=
  match a with
  | .int n => return (.const (.int n), .i64)
  | .bool b => return (.const (.bool b), .bool)
  | .str text => return (.const (.str text), .str)
  | .sym symbol => name names symbol s

/-- What a list comes to, by what its items come to. -/
def ofItems (os : List Operand) (s : Span) : Lowering :=
  match os with
  | [] => return (.const .unit, .unit)
  | (head, _) :: args =>
    match head.symbol? with
    | none => fail .operatorExpected head.span
    | some word =>
      match BinaryOp.ofSymbol? word, Form.ofWord? word with
      | some op, _ => binary op args s
      | none, some f => form names f args s
      | none, none => call names word head args s

/-- What a tree comes to. -/
def ofTree (t : Tree) : Lowering := t.fold (ofAtom names) (ofItems names)

/-- The operand a tree is. -/
def operand (t : Tree) : Operand := (t, ofTree names t)

end Lowering

end Kiln
