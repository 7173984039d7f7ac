import Kiln.Memory.Fault
import Kiln.Typing.Layout
/-!
# Values

What programs compute with. Every integer, whatever its type says, is one of 64 bits;
a pointer carries the type it points at; a sequence carries its elements in the form
they have in memory.
-/

namespace Kiln

/-- The values of programs. -/
inductive Value where
  | unit
  | bool (value : Bool)
  | int (value : Int64)
  | str (text : String)
  | ptr (addr : UInt64) (target : Ty)
  | struct (type : StructRef) (fields : List Value)
  | seq (elem : Ty) (len : UInt64) (bytes : List UInt8)
  deriving Repr, Inhabited

namespace Value

mutual

/-- Equality as a host sees it: pointers are equal when their addresses are. -/
def same : Value → Value → Bool
  | unit, unit => true
  | bool a, bool b => a == b
  | int a, int b => a == b
  | str a, str b => a == b
  | ptr a _, ptr b _ => a == b
  | struct r xs, struct s ys => r = s && sameAll xs ys
  | seq t n xs, seq u m ys => t = u && n == m && xs == ys
  | _, _ => false

/-- The same, for lists of fields. -/
def sameAll : List Value → List Value → Bool
  | [], [] => true
  | x :: xs, y :: ys => same x y && sameAll xs ys
  | _, _ => false

end

/-- The name of a value's type. -/
def typeName : Value → String
  | unit => "unit"
  | bool _ => "bool"
  | int _ => "integer"
  | str _ => "str"
  | ptr _ target => (Ty.ptr target).render
  | struct ref _ => ref.name
  | seq elem _ _ => (Ty.seq elem).render

/-- The fault of taking a value for another kind. -/
def unlike (what : Expectation) (v : Value) : Fault := .mismatch (.expected what v.typeName)

/-- A value taken for an integer. -/
def asInt : Value → Except Fault Int64
  | int n => .ok n
  | bool b => .ok (if b then 1 else 0)
  | v => .error (v.unlike .integer)

/-- A value taken for a truth value. -/
def asBool : Value → Except Fault Bool
  | bool b => .ok b
  | int n => .ok (n != 0)
  | v => .error (v.unlike .bool)

/-- A value taken for a pointer: its address and what it points at. -/
def asPtr : Value → Except Fault (UInt64 × Ty)
  | ptr addr target => .ok (addr, target)
  | v => .error (v.unlike .pointer)

/-- A value taken for a sequence: its length and its bytes. -/
def asSeq : Value → Except Fault (UInt64 × List UInt8)
  | seq _ len bytes => .ok (len, bytes)
  | v => .error (v.unlike .sequence)

/-- A value taken for a text. -/
def asText : Value → Except Fault String
  | str text => .ok text
  | v => .error (v.unlike .text)

/-- A value taken for an address, for which an integer will do. -/
def asAddress : Value → Except Fault UInt64
  | ptr addr _ => .ok addr
  | int n => .ok n.toUInt64
  | v => .error (v.unlike .pointer)

/-- The field of a name, in a struct value. -/
def field? (Γ : Layouts) (name : String) : Value → Option Value
  | struct ref fields => do
    let layout ← Γ.find? ref
    let index ← layout.fieldIndex? name
    fields[index]?
  | _ => none

/-- The value of a type that has zeros everywhere, where structs lie at most the given
number of levels inside each other. -/
def zeroedWithin (Γ : Layouts) : Nat → Ty → Value
  | _, .unit => unit
  | _, .bool => bool false
  | _, .u8 | _, .i64 | _, .u64 => int 0
  | _, .str => str ""
  | _, .ptr target => ptr 0 target
  | _, .seq elem => seq elem 0 []
  | 0, .struct ref => struct ref []
  | n + 1, .struct ref =>
    match Γ.find? ref with
    | some layout => struct ref (layout.fields.map fun f => zeroedWithin Γ n f.type)
    | none => struct ref []

/-- The value of a type that has zeros everywhere. -/
def zeroed (Γ : Layouts) (t : Ty) : Value := zeroedWithin Γ Γ.count t

mutual

/-- The written form of a value. -/
def render (Γ : Layouts) : Value → String
  | unit => "()"
  | bool b => toString b
  | int n => toString n.toInt
  | str text => text
  | ptr addr _ => hexAddress addr
  | struct ref fields =>
    let names := ((Γ.find? ref).map fun l => l.fields.map (·.name)).getD []
    ref.name ++ " \x7b" ++ ",".intercalate (renderFields Γ names fields) ++ " \x7d"
  | seq elem len _ => "<seq of " ++ toString len.toNat ++ " " ++ elem.render ++ ">"

/-- The written forms of the fields, each behind its name. -/
def renderFields (Γ : Layouts) (names : List String) : List Value → List String
  | [] => []
  | v :: vs =>
    (" " ++ names.headD "?" ++ ": " ++ render Γ v) :: renderFields Γ names.tail vs

end

end Value

end Kiln
