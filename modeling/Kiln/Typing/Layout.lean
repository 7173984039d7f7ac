import Kiln.Typing.Ty
/-!
# Memory layout

A storable type takes a fixed number of bytes at addresses that are a multiple of its
alignment. The fields of a struct follow each other, each at the first offset that
suits it, and the struct is as large as its fields need, rounded up to the largest
alignment among them. Where rounding up leaves what 64 bits can hold, the largest number
of 64 bits stands in for the result; where a sum does, there is no layout.
-/

namespace Kiln

/-- The least multiple of `align` (of one, if `align` is zero) at or above `value`, if
64 bits can hold it. -/
def alignUp? (value align : UInt64) : Option UInt64 :=
  let step := max align.toNat 1
  let rounded := (value.toNat + (step - 1)) / step * step
  if rounded < UInt64.size then some (UInt64.ofNat rounded) else none

/-- The same, with the largest number of 64 bits in place of one they cannot hold. -/
def alignUp (value align : UInt64) : UInt64 := (alignUp? value align).getD 0xffffffffffffffff

/-- A field of a struct, and where it lies. -/
structure Field where
  name : String
  type : Ty
  offset : UInt64
  deriving DecidableEq, Repr, Inhabited

/-- How a struct lies in memory. -/
structure Layout where
  fields : List Field
  size : UInt64
  align : UInt64
  deriving DecidableEq, Repr, Inhabited

namespace Layout

/-- The field of a name. -/
def field? (l : Layout) (name : String) : Option Field := l.fields.find? (·.name = name)

/-- The place of a name among the fields. -/
def fieldIndex? (l : Layout) (name : String) : Option Nat :=
  l.fields.findIdx? (·.name = name)

end Layout

/-- The layouts of the structs that have one. -/
structure Layouts where
  /-- The layout of a struct. -/
  find? : StructRef → Option Layout
  /-- How many structs have a layout at most, so that none can lie inside another more
  levels deep than this. -/
  count : Nat

namespace Layouts

/-- No struct has a layout. -/
def none : Layouts := ⟨fun _ => .none, 0⟩

/-- The layouts of a list of structs. -/
def ofList (structs : List (StructRef × Layout)) : Layouts :=
  ⟨fun r => structs.lookup r, structs.length⟩

end Layouts

namespace Ty

/-- Bytes a value of the type takes. -/
def size (Γ : Layouts) : Ty → UInt64
  | unit | str | seq _ => 0
  | bool | u8 => 1
  | i64 | u64 | ptr _ => 8
  | struct ref => ((Γ.find? ref).map (·.size)).getD 0

/-- What the address of a value of the type is a multiple of. -/
def align (Γ : Layouts) : Ty → UInt64
  | unit | str | seq _ | bool | u8 => 1
  | i64 | u64 | ptr _ => 8
  | struct ref => ((Γ.find? ref).map (·.align)).getD 1

end Ty

namespace Layout

/-- The layout under construction: fields so far, the offset after the last one, and the
largest alignment. -/
structure Draft where
  fields : List Field
  stop : UInt64
  align : UInt64

/-- Adds a field behind the others, if 64 bits can hold the offset after it. -/
def Draft.push? (Γ : Layouts) (p : Draft) (field : String × Ty) : Option Draft :=
  let offset := alignUp p.stop (field.2.align Γ)
  let stop := offset.toNat + (field.2.size Γ).toNat
  if stop < UInt64.size then
    some ⟨p.fields ++ [⟨field.1, field.2, offset⟩], .ofNat stop, max p.align (field.2.align Γ)⟩
  else none

/-- The struct that ends behind the fields so far. -/
def Draft.close (p : Draft) : Layout := ⟨p.fields, alignUp p.stop p.align, p.align⟩

/-- Lays fields out in their order, if 64 bits can hold all offsets. -/
def ofFields? (Γ : Layouts) (fields : List (String × Ty)) : Option Layout :=
  (fields.foldlM (Draft.push? Γ) ⟨[], 0, 1⟩).map Draft.close

end Layout

end Kiln
