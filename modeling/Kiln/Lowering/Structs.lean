import Kiln.Lowering.Names
/-!
# Structs of a unit

The structs of a unit may refer to each other in any order. They are laid out depth
first, each after the structs it holds by value, so that the sizes of its fields are
known; a struct that is reached again from inside itself is refused. On a struct whose
fields reach further than offsets can tell, the host gives up.
-/

namespace Kiln

/-- A struct as it is written down. -/
structure StructForm where
  name : String
  fields : List Tree
  span : Span
  deriving Repr

namespace Names

/-- The names once some of the unit's own structs are laid out. -/
def withStructs (names : Names) (structs : List StructDef) : Names :=
  { names with
    layouts :=
      ⟨fun ref =>
        if ref.home = names.home then (structs.find? (·.name = ref.name)).map (·.layout)
        else names.layouts.find? ref,
        names.layouts.count + structs.length⟩ }

/-- The struct of the unit that a type holds by value. -/
def ownStruct? (names : Names) (forms : List StructForm) : Ty → Option StructForm
  | .struct ref =>
    if ref.home = names.home then forms.find? (·.name = ref.name) else none
  | _ => none

end Names

section LayOut

variable (names : Names) (forms : List StructForm)

/-- Adds one field to those before it. `layOut` lays out the struct that the field holds,
if it is one of the unit. -/
def layOutField (layOut : StructForm → List StructDef → Except LoweringError (List StructDef))
    (acc : List (String × Ty) × List StructDef) (field : Tree) :
    Except LoweringError (List (String × Ty) × List StructDef) := do
  let (nameTree, typeTree) ← pairOf field "(field Type)"
  let name ← declaredName nameTree .field
  let type ← names.resolveType typeTree
  let done ← match names.ownStruct? forms type with
    | some inner => layOut inner acc.2
    | none => pure acc.2
  if !type.isStorable then refuse (.unstorableField name type) typeTree.span
  else if acc.1.any (·.1 == name) then refuse (.declaredTwice .field name) field.span
  else return (acc.1 ++ [(name, type)], done)

/-- Lays out a struct and whatever it holds, given the structs that hold it (`around`)
and those that are done. The first argument bounds how deep structs can lie inside each
other. -/
def layOut : Nat → List String → StructForm → List StructDef →
    Except LoweringError (List StructDef)
  | 0, _, _, done => .ok done
  | depth + 1, around, form, done => do
    if done.any (·.name == form.name) then return done
    else if around.contains form.name then refuse (.containsItself form.name) form.span
    else
      let (fields, done) ←
        form.fields.foldlM (layOutField names forms (layOut depth (form.name :: around)))
          ([], done)
      match Layout.ofFields? (names.withStructs done).layouts fields with
      | some layout => return done ++ [⟨form.name, layout⟩]
      | none => refuse (.oversized form.name) form.span

/-- Lays out all structs of a unit. -/
def layOutAll : Except LoweringError (List StructDef) :=
  forms.foldlM (fun done form => layOut names forms (forms.length + 1) [] form done) []

end LayOut

end Kiln
