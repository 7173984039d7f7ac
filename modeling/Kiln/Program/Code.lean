import Kiln.Memory.Value
/-!
# Code

The form a function's body has once every name in it is resolved: variables are
slots of the function's frame, globals and functions are places in their module, and
each access to memory says the type it is made at.
-/

namespace Kiln

/-- The operators between two values. -/
inductive BinaryOp where
  | add | sub | mul | div | rem
  | lt | le | gt | ge
  | eq | ne
  deriving DecidableEq, Repr, Inhabited

namespace BinaryOp

/-- The operators and the symbols they are written as. -/
def symbols : List (String × BinaryOp) :=
  [("+", add), ("-", sub), ("*", mul), ("/", div), ("%", rem),
    ("<", lt), ("<=", le), (">", gt), (">=", ge), ("==", eq), ("!=", ne)]

/-- The operator a symbol stands for. -/
def ofSymbol? (symbol : String) : Option BinaryOp := symbols.lookup symbol

/-- The operators whose result is a number. -/
def isArithmetic : BinaryOp → Bool
  | add | sub | mul | div | rem => true
  | _ => false

/-- The operators that tell whether two values are equal. -/
def isEquality : BinaryOp → Bool
  | eq | ne => true
  | _ => false

end BinaryOp

/-- The function that a call goes to. -/
inductive Callee where
  /-- A function of the same module, by its place there. -/
  | own (index : Nat)
  /-- A function of another module, by its place there. -/
  | foreign (home : ModuleId) (index : Nat)
  deriving DecidableEq, Repr, Inhabited

/-- Bodies of functions, and initialisers of globals. -/
inductive Code where
  | const (value : Value)
  | getLocal (slot : Nat)
  | setLocal (slot : Nat) (value : Code)
  | getGlobal (index : Nat)
  | setGlobal (index : Nat) (value : Code)
  /-- A global of another module. -/
  | foreignGlobal (home : ModuleId) (index : Nat)
  | block (items : List Code)
  | branch (cond : Code) (onTrue : Code) (onFalse : Option Code)
  | loop (cond : Code) (body : Code)
  | binary (op : BinaryOp) (left right : Code)
  | not (value : Code)
  | and (left right : Code)
  | or (left right : Code)
  | call (callee : Callee) (args : List Code)
  /-- The address of a field, at a fixed distance from the struct's. -/
  | fieldPtr (base : Code) (offset : UInt64) (target : Ty)
  | fieldGet (base : Code) (index : Nat)
  | make (type : StructRef) (fields : List Code)
  | load (ptr : Code) (type : Ty)
  | store (ptr value : Code) (type : Ty)
  | cast (value : Code) (type : Ty)
  | offset (ptr count : Code) (stride : UInt64)
  | addr (ptr : Code)
  | seqLit (elem : Ty) (items : List Code)
  | seqLen (seq : Code)
  | seqCopy (dst seq : Code)
  deriving Repr, Inhabited

end Kiln
