import Kiln.Machine.Run
/-!
# Operations on values

What operators, conversions and the functions of the host do with values that have
been computed already. Arithmetic wraps at 64 bits; a quotient that does not fit them
is refused like a quotient by zero.
-/

namespace Kiln

/-- Whether two values are equal, as the language compares them. -/
def Value.equals : Value → Value → Except Fault Bool
  | .int a, .int b => .ok (a == b)
  | .bool a, .bool b => .ok (a == b)
  | .str a, .str b => .ok (a == b)
  | .ptr a _, .ptr b _ => .ok (a == b)
  | .ptr a _, .int n => .ok (a == n.toUInt64)
  | .int n, .ptr a _ => .ok (a == n.toUInt64)
  | .unit, .unit => .ok true
  | v, w => .error (.mismatch (.incomparable v.typeName w.typeName))

/-- The fault of a quotient that does not exist. -/
def divisionByZero : Fault := .panic "division by zero"

/-- Whether a quotient exists and fits 64 bits. -/
def isDivisible (a b : Int64) : Bool := b != 0 && !(a == Int64.minValue && b == -1)

/-- The result of an operator other than a comparison for equality. -/
def BinaryOp.compute (op : BinaryOp) (a b : Int64) : Except Fault Value :=
  match op with
  | .add => .ok (.int (a + b))
  | .sub => .ok (.int (a - b))
  | .mul => .ok (.int (a * b))
  | .div => if isDivisible a b then .ok (.int (a / b)) else .error divisionByZero
  | .rem => if isDivisible a b then .ok (.int (a % b)) else .error divisionByZero
  | .lt => .ok (.bool (a < b))
  | .le => .ok (.bool (a ≤ b))
  | .gt => .ok (.bool (b < a))
  | .ge => .ok (.bool (b ≤ a))
  | .eq => .ok (.bool (a == b))
  | .ne => .ok (.bool (a != b))

/-- The result of an operator. -/
def BinaryOp.apply (op : BinaryOp) (left right : Value) : Except Fault Value := do
  match op with
  | .eq => return .bool (← left.equals right)
  | .ne => return .bool !(← left.equals right)
  | op =>
    let a ← left.asInt
    let b ← right.asInt
    op.compute a b

/-- A value taken for one of another type. -/
def Value.cast (v : Value) (wanted : Ty) : Except Fault Value :=
  match v, wanted with
  | .int n, .u8 => .ok (.int (n &&& 0xff))
  | .int n, .i64 | .int n, .u64 => .ok (.int n)
  | .int n, .bool => .ok (.bool (n != 0))
  | .bool b, .u8 | .bool b, .i64 | .bool b, .u64 => .ok (.int (if b then 1 else 0))
  | .bool b, .bool => .ok (.bool b)
  | .int n, .ptr target => .ok (.ptr n.toUInt64 target)
  | .ptr addr _, .ptr target => .ok (.ptr addr target)
  | .ptr addr _, .u8 | .ptr addr _, .i64 | .ptr addr _, .u64 => .ok (.int addr.toInt64)
  | .struct own fields, .struct ref =>
    if own = ref then .ok (.struct own fields)
    else .error (.mismatch (.notCastable own.name ref.name))
  | .str text, .str => .ok (.str text)
  | .seq elem len bytes, .seq t =>
    if elem = t then .ok (.seq elem len bytes)
    else .error (.mismatch (.notCastable (Ty.seq elem).render (Ty.seq t).render))
  | .unit, .unit => .ok .unit
  | v, t => .error (.mismatch (.notCastable v.typeName t.render))

/-- The size that an integer asks for; a negative one asks for more than there is. -/
def requestedSize (n : Int64) : UInt64 := if n < 0 then 0xffffffffffffffff else n.toUInt64

/-- Takes a block from the heap. -/
def allocate (size : UInt64) : Run UInt64 := do
  let s ← get
  match s.heap.alloc size with
  | .ok (addr, heap) => set { s with heap }; pure addr
  | .error e => Run.halt (.exhausted e)

/-- What a function of the host does. -/
def Native.run (op : Native) (args : List Value) : Run Value := do
  match op, args with
  | .malloc, [size] =>
    let n ← Run.lift size.asInt
    return .ptr (← allocate (requestedSize n)) .u8
  | .free, [ptr] =>
    let addr ← Run.lift ptr.asAddress
    Run.updateHeap (·.release addr)
    return .unit
  | .memcpy, [dst, src, len] =>
    let d ← Run.lift dst.asAddress
    let s ← Run.lift src.asAddress
    let n ← Run.lift len.asInt
    Run.updateHeap (·.copy d s n.toUInt64)
    return .unit
  | .memset, [dst, byte, len] =>
    let d ← Run.lift dst.asAddress
    let b ← Run.lift byte.asInt
    let n ← Run.lift len.asInt
    Run.updateHeap (·.fill d n.toUInt64 b.toUInt64.toUInt8)
    return .unit
  | .panic, [message] => Run.fail (.panic (← Run.lift message.asText))
  | .print, [message] =>
    let text ← Run.lift message.asText
    modify (·.print text)
    return .unit
  | .printInt, [value] =>
    let n ← Run.lift value.asInt
    modify (·.print (toString n.toInt))
    return .unit
  | .sleepMs, [millis] =>
    discard (Run.lift millis.asInt)
    return .unit
  | _, _ => Run.halt .stray

end Kiln
