/-!
# Types

Every value has one of nine kinds of type. A struct is known by the module it is
defined in and by its name there, so structs of one name in two modules are two
types, and reloading a module makes its structs anew.
-/

namespace Kiln

/-- Modules are numbered in the order they are compiled; the base library is number zero. -/
structure ModuleId where
  index : Nat
  deriving DecidableEq, Repr, Inhabited

namespace ModuleId

/-- The written form, as in `#3`. -/
def render (id : ModuleId) : String := "#" ++ toString id.index

end ModuleId

/-- A struct, by the module that defines it and its name there. -/
structure StructRef where
  home : ModuleId
  name : String
  deriving DecidableEq, Repr, Inhabited

/-- The types of values. -/
inductive Ty where
  | unit
  | bool
  | u8
  | i64
  | u64
  | str
  /-- Addresses of values of one type. -/
  | ptr (target : Ty)
  /-- Sequences of values of one type, apart from the heap. -/
  | seq (elem : Ty)
  | struct (ref : StructRef)
  deriving DecidableEq, Repr, Inhabited

namespace Ty

/-- The words that name a type by themselves. -/
def primitiveNames : List String := ["unit", "bool", "u8", "i64", "u64", "str"]

/-- The type a word names by itself. -/
def primitive? : String → Option Ty
  | "unit" => some unit
  | "bool" => some bool
  | "u8" => some u8
  | "i64" => some i64
  | "u64" => some u64
  | "str" => some str
  | _ => none

/-- The written form; a struct goes by its name alone. -/
def render : Ty → String
  | unit => "unit"
  | bool => "bool"
  | u8 => "u8"
  | i64 => "i64"
  | u64 => "u64"
  | str => "str"
  | ptr t => "(ptr " ++ t.render ++ ")"
  | seq t => "(seq " ++ t.render ++ ")"
  | struct ref => ref.name

/-- Strings and sequences have no form in memory. -/
def isStorable : Ty → Bool
  | str => false
  | seq _ => false
  | _ => true

/-- The types of numbers. -/
def isInteger : Ty → Bool
  | u8 | i64 | u64 => true
  | _ => false

/-- What a pointer points at. -/
def pointee? : Ty → Option Ty
  | ptr t => some t
  | _ => none

/-- Pointers to bytes, which stand for pointers of every type. -/
def bytePtr : Ty := ptr u8

end Ty

instance : ToString Ty := ⟨Ty.render⟩

end Kiln
