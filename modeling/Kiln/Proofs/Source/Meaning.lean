import Kiln.Lowering.Unit
import Kiln.Machine.Eval
/-!
# What a unit means

The meaning of a function, read off its tree. Variables go by name, and a name means what
is bound to it in the innermost scope that binds it; code, slots and numbers of functions
do not appear. What an expression means is compositional (`Expr`): its type, the scopes
behind it, and what a run of it does to the variables and the store.

Each parameter and each `let` of a body has a variable of its own, known by its place in
the body (`Variable`). An activation of a function starts with all of them unit, its
parameters apart.

Sizes, and the places of fields, are those of the layouts that are known when the unit is
compiled (`Γ`); how values are read and written, the layouts when it runs say (`Δ`).

Functions of other modules are compiled already, and run on the machine. Calls nest at
most as deep as is asked for; at what depth that is decides nothing but how far a run
comes.
-/

namespace Kiln

namespace Source

/-! ## Names -/

/-- Where a tree stands in a body: at which place of its list, of the list around it, and
so on. -/
abbrev Place := List Nat

/-- The variables of an activation. -/
inductive Variable where
  /-- What the caller passes at a position. -/
  | param (index : Nat)
  /-- What the `let` at a place binds. -/
  | bound (place : Place)
  deriving DecidableEq, Repr

/-- A variable under a name. -/
structure Binding where
  name : String
  var : Variable
  type : Ty
  deriving Repr

/-- What names mean: the bindings of each scope, the latest first, the innermost scope
first. -/
abbrev Scopes := List (List Binding)

namespace Scopes

/-- What a name means in the innermost scope that binds it. -/
def lookup (sc : Scopes) (name : String) : Option Binding :=
  sc.findSome? fun scope => scope.find? (·.name = name)

/-- Binds a name in the innermost scope. -/
def bind (sc : Scopes) (b : Binding) : Scopes :=
  match sc with
  | scope :: outer => (b :: scope) :: outer
  | [] => []

/-- Inside a scope of its own. -/
def opened (sc : Scopes) : Scopes := [] :: sc

end Scopes

/-- The values of the variables of an activation. -/
abbrev Variables := Variable → Value

/-- One variable with another value. -/
def Variables.set (σ : Variables) (x : Variable) (v : Value) : Variables :=
  fun y => if y = x then v else σ y

/-- A function as it is written down. -/
structure Fun where
  name : String
  params : List Param
  result : Ty
  body : List Tree

/-- What a call goes to. -/
inductive Callee where
  /-- A function of the unit. -/
  | own (f : Fun)
  /-- A function that is compiled already. -/
  | compiled (handle : FunctionHandle)

/-- What a unit defines, and what it sees. -/
structure Scenery where
  /-- The number of the unit's module. -/
  home : ModuleId
  /-- The modules it may use, in the order names are looked up in them. -/
  deps : List Module
  structs : List String
  functions : List Fun
  globals : List Global

namespace Scenery

variable (D : Scenery)

/-- The type of a name: the unit's own struct, else that of the first dependency that has
one. -/
def typeNamed? (name : String) : Option Ty :=
  match Ty.primitive? name with
  | some t => some t
  | none =>
    if D.structs.contains name then some (.struct ⟨D.home, name⟩)
    else D.deps.findSome? (·.structType? name)

/-- The type a tree spells. -/
def typeOf : Tree → Ty
  | .leaf (.sym name) _ => (D.typeNamed? name).getD .unit
  | .node [head, inner] _ =>
    if head.symbol? = some "ptr" then .ptr (typeOf inner) else .seq (typeOf inner)
  | _ => .unit

/-- The module, the place and the type of the global of a name: that of the first module
that has one, of the unit itself and its dependencies in order. -/
def global? (name : String) : Option (ModuleId × Nat × Ty) :=
  ((D.home, D.globals) :: D.deps.map fun m => (m.id, m.globals)).findSome? fun (id, globals) => do
    let i ← globals.findIdx? (·.name = name)
    let g ← globals[i]?
    return (id, i, g.type)

/-- The place and the type of the unit's own global of a name. -/
def ownGlobal? (name : String) : Option (Nat × Ty) := do
  let i ← D.globals.findIdx? (·.name = name)
  let g ← D.globals[i]?
  return (i, g.type)

/-- The function of a name, with the type of its result: the unit's own, else that of the
first dependency that has one, else that of the base library. -/
def function? (name : String) : Option (Callee × Ty) :=
  match D.functions.find? (·.name = name) with
  | some f => some (.own f, f.result)
  | none => (D.deps ++ [Module.base]).findSome? fun m => do
    let handle ← m.handle? name
    let f ← m.functions[handle.index]?
    return (.compiled handle, f.result)

/-- The parameters that trees declare. -/
def params (ts : List Tree) : List Param :=
  ts.filterMap fun
    | .node [name, type] _ => some (name.symbol?.getD "", D.typeOf type)
    | _ => none

/-- The function that a definition defines. -/
def functionOf? (t : Tree) : Option Fun :=
  match t.form? "fun" with
  | some (name :: params :: result :: body) =>
    some ⟨name.symbol?.getD "", D.params (params.items?.getD []), D.typeOf result, body⟩
  | _ => none

/-- The global that a definition defines. -/
def globalOf? (t : Tree) : Option Global :=
  match t.form? "global" with
  | some [name, type, _] => some ⟨name.symbol?.getD "", D.typeOf type⟩
  | _ => none

/-- The struct that a definition defines, as it is written down. -/
def structOf? (t : Tree) : Option StructForm :=
  match t.form? "struct" with
  | some (name :: fields) => some ⟨name.symbol?.getD "", fields, t.span⟩
  | _ => none

/-- What a unit defines and sees. -/
def ofUnit (home : ModuleId) (deps : List Module) (root : Tree) : Scenery :=
  let D : Scenery := ⟨home, deps, ((definitions root).filterMap structOf?).map (·.name), [], []⟩
  { D with
    functions := (definitions root).filterMap D.functionOf?
    globals := (definitions root).filterMap D.globalOf? }

end Scenery

/-! ## Expressions -/

/-- What an expression means, given what names mean where it stands. -/
structure Expr where
  /-- The type of its value. -/
  type : Scopes → Ty
  /-- What names mean behind it. -/
  after : Scopes → Scopes
  /-- Its value, and the variables once it has one. -/
  run : Scopes → Variables → Run (Value × Variables)

/-- A tree with what it means. -/
abbrev Operand := Tree × Expr

namespace Expr

/-- What no unit that is accepted contains. -/
def stuck : Expr := ⟨fun _ => .unit, id, fun _ _ => Run.halt .stray⟩

/-- A value that is written down. -/
def literal (v : Value) (t : Ty) : Expr := ⟨fun _ => t, id, fun _ σ => pure (v, σ)⟩

/-- The value of an expression, taken for a truth value. -/
def truth (e : Expr) (sc : Scopes) (σ : Variables) : Run (Bool × Variables) := do
  let (v, σ) ← e.run sc σ
  pure (← Run.lift v.asBool, σ)

/-- What names mean behind expressions that follow each other. -/
def afterAll : List Expr → Scopes → Scopes
  | [], sc => sc
  | e :: es, sc => afterAll es (e.after sc)

/-- The values of expressions that follow each other. -/
def runAll : List Expr → Scopes → Variables → Run (List Value × Variables)
  | [], _, σ => pure ([], σ)
  | e :: es, sc, σ => do
    let (v, σ) ← e.run sc σ
    let (vs, σ) ← runAll es (e.after sc) σ
    pure (v :: vs, σ)

/-- The last value of expressions that follow each other. -/
def runLast (last : Value) : List Expr → Scopes → Variables → Run (Value × Variables)
  | [], _, σ => pure (last, σ)
  | e :: es, sc, σ => do
    let (v, σ) ← e.run sc σ
    runLast v es (e.after sc) σ

/-- The last type of expressions that follow each other. -/
def lastType (last : Ty) : List Expr → Scopes → Ty
  | [], _ => last
  | e :: es, sc => lastType (e.type sc) es (e.after sc)

/-- Whether expressions are all true; the first that is not ends the search. -/
def allTrue : List Expr → Scopes → Variables → Run (Bool × Variables)
  | [], _, σ => pure (true, σ)
  | e :: es, sc, σ => do
    let (b, σ) ← e.truth sc σ
    if b then allTrue es (e.after sc) σ else pure (false, σ)

/-- Whether one of the expressions is true; the first that is ends the search. -/
def anyTrue : List Expr → Scopes → Variables → Run (Bool × Variables)
  | [], _, σ => pure (false, σ)
  | e :: es, sc, σ => do
    let (b, σ) ← e.truth sc σ
    if b then pure (true, σ) else anyTrue es (e.after sc) σ

/-- Runs `body` for as long as `test` holds, at most the given number of times. -/
def repeatWhile (test : Variables → Run (Bool × Variables))
    (body : Variables → Run (Value × Variables)) : Nat → Variables → Run Variables
  | 0, _ => Run.halt .endless
  | n + 1, σ => do
    let (go, σ) ← test σ
    if go then
      let (_, σ) ← body σ
      repeatWhile test body n σ
    else pure σ

/-- Expressions in a scope of their own, for the last value. -/
def inScope (es : List Expr) : Expr where
  type sc := lastType .unit es sc.opened
  after := id
  run sc := runLast .unit es sc.opened

/-- An expression that takes the value of another and makes something of it, which may
depend on the other's type. -/
def map (e : Expr) (type : Ty → Ty) (f : Ty → Value → Run Value) : Expr where
  type sc := type (e.type sc)
  after := e.after
  run sc σ := do
    let (v, σ) ← e.run sc σ
    pure (← f (e.type sc) v, σ)

/-- The same with two values, from left to right. -/
def map₂ (d e : Expr) (type : Ty → Ty → Ty) (f : Ty → Ty → Value → Value → Run Value) :
    Expr where
  type sc := type (d.type sc) (e.type (d.after sc))
  after sc := e.after (d.after sc)
  run sc σ := do
    let (v, σ) ← d.run sc σ
    let (w, σ) ← e.run (d.after sc) σ
    pure (← f (d.type sc) (e.type (d.after sc)) v w, σ)

/-- The same with any number of values. -/
def mapAll (es : List Expr) (type : Ty) (f : List Value → Run Value) : Expr where
  type _ := type
  after := afterAll es
  run sc σ := do
    let (vs, σ) ← runAll es sc σ
    pure (← f vs, σ)

end Expr

/-- What a pointer type points at. -/
def pointee : Ty → Ty
  | .ptr t => t
  | _ => .unit

/-- The layout of what a struct type names. -/
def layoutOf (Γ : Layouts) : Ty → Layout
  | .struct ref => (Γ.find? ref).getD ⟨[], 0, 1⟩
  | _ => ⟨[], 0, 1⟩

/-- The field of a struct type. -/
def fieldOf (Γ : Layouts) (t : Ty) (name : Tree) : Field :=
  ((layoutOf Γ t).field? (name.symbol?.getD "")).getD default

/-- The place of a field among those of a struct type. -/
def fieldIndex (Γ : Layouts) (t : Ty) (name : Tree) : Nat :=
  ((layoutOf Γ t).fieldIndex? (name.symbol?.getD "")).getD 0

/-- Calls of functions. -/
abbrev Calls := Callee → List Value → Run Value

section Forms

variable (D : Scenery) (Γ Δ : Layouts) (calls : Calls)

/-- A name: the variable it is bound to, else a global. -/
def name (symbol : String) : Expr where
  type sc :=
    match sc.lookup symbol, D.global? symbol with
    | some b, _ => b.type
    | none, some (_, _, t) => t
    | none, none => .unit
  after := id
  run sc σ :=
    match sc.lookup symbol, D.global? symbol with
    | some b, _ => pure (σ b.var, σ)
    | none, some (home, i, _) => do
      pure (← Run.present ((← get).global? home i), σ)
    | none, none => Run.halt .stray

/-- `(let name value)` at a place. -/
def bind (place : Place) : List Operand → Expr
  | [(target, _), (_, e)] => {
    type _ := .unit
    after sc := (e.after sc).bind ⟨target.symbol?.getD "", .bound place, e.type sc⟩
    run sc σ := do
      let (v, σ) ← e.run sc σ
      pure (.unit, σ.set (.bound place) v) }
  | _ => .stuck

/-- `(set name value)` -/
def assign : List Operand → Expr
  | [(target, _), (_, e)] => {
    type _ := .unit
    after := e.after
    run sc σ := do
      let symbol := target.symbol?.getD ""
      let (v, σ) ← e.run sc σ
      match sc.lookup symbol, D.ownGlobal? symbol with
      | some b, _ => pure (.unit, σ.set b.var v)
      | none, some (i, _) => do
        modify (·.setGlobal D.home i v)
        pure (.unit, σ)
      | none, none => Run.halt .stray }
  | _ => .stuck

/-- Branches of one type, or both numbers, make a value. -/
def branchType (left right : Ty) : Ty :=
  if left = right || (left.isInteger && right.isInteger) then left else .unit

/-- `(if cond then [else])` -/
def branch : List Operand → Expr
  | [(_, cond), (_, yes)] => {
    type _ := .unit
    after := cond.after
    run sc σ := do
      let (b, σ) ← cond.truth sc σ
      if b then yes.run (cond.after sc).opened σ else pure (.unit, σ) }
  | [(_, cond), (_, yes), (_, no)] => {
    type sc := branchType (yes.type (cond.after sc).opened) (no.type (cond.after sc).opened)
    after := cond.after
    run sc σ := do
      let (b, σ) ← cond.truth sc σ
      if b then yes.run (cond.after sc).opened σ else no.run (cond.after sc).opened σ }
  | _ => .stuck

/-- `(while cond body ...)` -/
def loop : List Operand → Expr
  | (_, cond) :: body => {
    type _ := .unit
    after := cond.after
    run sc σ := do
      let body := Expr.inScope (body.map (·.2))
      pure (.unit, ← Expr.repeatWhile (cond.truth sc) (body.run (cond.after sc)) patience σ) }
  | _ => .stuck

/-- `(and a b ...)` and `(or a b ...)` -/
def chain (decide : List Expr → Scopes → Variables → Run (Bool × Variables))
    (os : List Operand) : Expr where
  type _ := .bool
  after := Expr.afterAll (os.map (·.2))
  run sc σ := do
    let (b, σ) ← decide (os.map (·.2)) sc σ
    pure (.bool b, σ)

/-- `(make Struct value ...)` -/
def make : List Operand → Expr
  | (spelled, _) :: values =>
    let t := D.typeOf spelled
    .mapAll (values.map (·.2)) t fun vs =>
      match t with
      | .struct ref => pure (.struct ref vs)
      | _ => Run.halt .stray
  | _ => .stuck

/-- Reads a value of a type at a pointer. -/
def readAt (t : Ty) (p : Value) : Run Value := do
  let (addr, _) ← Run.lift p.asPtr
  let bytes ← Run.lift ((← get).heap.read addr (t.size Γ))
  Run.lift (Value.decode Γ t bytes)

/-- Writes a value of a type at a pointer. -/
def writeAt (t : Ty) (p v : Value) : Run Value := do
  let bytes ← Run.lift (v.encode Γ t)
  let (addr, _) ← Run.lift p.asPtr
  Run.updateHeap (·.write addr bytes)
  pure .unit

/-- The address of a field. -/
def fieldAt (offset : UInt64) (t : Ty) (p : Value) : Run Value := do
  let (addr, _) ← Run.lift p.asPtr
  pure (.ptr (addr + offset) t)

/-- The address a number of strides away. -/
def strideBy (stride : UInt64) (p n : Value) : Run Value := do
  let n ← Run.lift n.asInt
  let (addr, target) ← Run.lift p.asPtr
  pure (.ptr (strideFrom addr n stride) target)

/-- An address as a number. -/
def addressOf (p : Value) : Run Value := do
  let (addr, _) ← Run.lift p.asPtr
  pure (.int addr.toInt64)

/-- How many items a sequence has. -/
def lengthOf (seq : Value) : Run Value := do
  let (len, _) ← Run.lift seq.asSeq
  pure (.int len.toInt64)

/-- Writes the items of a sequence at a pointer. -/
def copyTo (p seq : Value) : Run Value := do
  let (addr, _) ← Run.lift p.asPtr
  let (_, bytes) ← Run.lift seq.asSeq
  Run.updateHeap (·.write addr bytes)
  pure .unit

/-- One of the forms, at a place. -/
def form (place : Place) (f : Form) (os : List Operand) : Expr :=
  match f, os with
  | .sequence, os => .inScope (os.map (·.2))
  | .bind, os => bind place os
  | .assign, os => assign D os
  | .branch, os => branch os
  | .loop, os => loop os
  | .all, os => chain Expr.allTrue os
  | .any, os => chain Expr.anyTrue os
  | .negation, [(_, e)] => {
    type _ := .bool
    after := e.after
    run sc σ := do
      let (b, σ) ← e.truth sc σ
      pure (.bool !b, σ) }
  | .sizeOf, [(spelled, _)] => .literal (.int ((D.typeOf spelled).size Γ).toInt64) .u64
  | .zeroed, [(spelled, _)] => .literal (.zeroed Γ (D.typeOf spelled)) (D.typeOf spelled)
  | .fieldPointer, [(_, e), (field, _)] =>
    e.map (fun t => .ptr (fieldOf Γ (pointee t) field).type) fun t =>
      let f := fieldOf Γ (pointee t) field
      fieldAt f.offset f.type
  | .fieldValue, [(_, e), (field, _)] =>
    e.map (fun t => (fieldOf Γ t field).type) fun t v => Run.lift (v.fieldAt (fieldIndex Γ t field))
  | .make, os => make D os
  | .load, [(_, e)] => e.map pointee fun t => readAt Δ (pointee t)
  | .store, [(_, p), (_, e)] => p.map₂ e (fun _ _ => .unit) fun t _ => writeAt Δ (pointee t)
  | .cast, [(spelled, _), (_, e)] =>
    e.map (fun _ => D.typeOf spelled) fun _ v => Run.lift (v.cast (D.typeOf spelled))
  | .offset, [(_, p), (_, n)] =>
    p.map₂ n (fun t _ => .ptr (pointee t)) fun t _ => strideBy ((pointee t).size Γ)
  | .address, [(_, e)] => e.map (fun _ => .u64) fun _ => addressOf
  | .sequenceOf, (spelled, _) :: values =>
    .mapAll (values.map (·.2)) (.seq (D.typeOf spelled)) fun vs =>
      Run.lift (Value.ofItems Δ (D.typeOf spelled) vs)
  | .length, [(_, e)] => e.map (fun _ => .u64) fun _ => lengthOf
  | .copySequence, [(_, p), (_, e)] => p.map₂ e (fun _ _ => .unit) fun _ _ => copyTo
  | _, _ => .stuck

/-- Arithmetic gives numbers of the type of the left operand, all else a truth value. -/
def resultType (op : BinaryOp) (left : Ty) : Ty := if op.isArithmetic then left else .bool

/-- An operator between two values; a minus may also stand before one. -/
def binary (op : BinaryOp) : List Operand → Expr
  | [(_, a), (_, b)] =>
    a.map₂ b (fun t _ => resultType op t) fun _ _ v w => Run.lift (op.apply v w)
  | [(_, e)] => e.map id fun _ v => Run.lift (BinaryOp.sub.apply (.int 0) v)
  | _ => .stuck

/-- A call of a function. -/
def call (function : String) (os : List Operand) : Expr :=
  match D.function? function with
  | some (callee, result) => .mapAll (os.map (·.2)) result (calls callee)
  | none => .stuck

/-- What an atom means. -/
def ofAtom (a : Atom) : Expr :=
  match a with
  | .int n => .literal (.int n) .i64
  | .bool b => .literal (.bool b) .bool
  | .str text => .literal (.str text) .str
  | .sym symbol => name D symbol

/-- What a list at a place means, by what its items mean. -/
def ofItems (place : Place) : List Operand → Expr
  | [] => .literal .unit .unit
  | (head, _) :: args =>
    match head.symbol? with
    | none => .stuck
    | some word =>
      match BinaryOp.ofSymbol? word, Form.ofWord? word with
      | some op, _ => binary op args
      | none, some f => form D Γ Δ place f args
      | none, none => call D calls word args

/-- The items of a list with what they mean, each at its place from `k` on. -/
def placed (place : Place) : Nat → List (Tree × (Place → Expr)) → List Operand
  | _, [] => []
  | k, (t, e) :: rest => (t, e (k :: place)) :: placed place (k + 1) rest

/-- What a tree at a place means. -/
def ofTree (t : Tree) : Place → Expr :=
  t.fold (fun a _ _ => ofAtom D a)
    fun items _ place => ofItems D Γ Δ calls place (placed place 0 items)

/-- What a body means: its items in a scope of their own, where the parameters are seen. -/
def ofBody (body : List Tree) : Expr :=
  .inScope ((placed [] 0 (body.map fun t => (t, ofTree D Γ Δ calls t))).map (·.2))

end Forms

/-! ## Functions -/

/-- The scope of the parameters; of two of one name the later would hide the earlier. -/
def paramScope (params : List Param) : List Binding :=
  (params.zipIdx.map fun (p, i) => ⟨p.1, .param i, p.2⟩).reverse

/-- The variables of a new activation: the parameters have what was passed, all others are
unit. -/
def activation (args : List Value) : Variables
  | .param i => args.getD i .unit
  | .bound _ => .unit

/-- What a function returns whose body comes to a value of a type: the value, except that a
function that returns nothing drops a value of any other type. -/
def returned (result type : Ty) (v : Value) : Value :=
  if result = .unit ∧ type ≠ .unit then .unit else v

/-- A call, where calls may nest so many levels deep. The unit was compiled knowing the layouts
`Γ`. -/
def run (D : Scenery) (Γ : Layouts) (lib : Library) : Nat → Calls
  | 0, _, _ => Run.fail (.tooDeep maxDepth)
  | depth + 1, callee, args =>
    match callee with
    | .compiled handle => invoke lib (eval lib depth) handle args
    | .own f =>
      if args.length ≠ f.params.length then
        Run.fail (.arity f.name f.params.length args.length)
      else do
        let body := ofBody D Γ lib.layouts (run D Γ lib depth) f.body
        let scopes := [paramScope f.params]
        let (v, _) ← body.run scopes (activation args)
        pure (returned f.result (body.type scopes) v)

end Source

end Kiln
