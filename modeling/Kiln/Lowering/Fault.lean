import Kiln.Typing.Ty
import Kiln.Text.Span
/-!
# What can be wrong with a unit

A unit that reads well may still not be a module. `LoweringFault` lists the causes,
`LoweringFault.message` and `LoweringFault.help?` word them.
-/

namespace Kiln

/-- What a name is given to. -/
inductive Noun where
  | struct
  | function
  | global
  | parameter
  | field
  | slot
  deriving DecidableEq, Repr

/-- The noun as messages write it. -/
def Noun.word : Noun → String
  | struct => "struct"
  | function => "function"
  | global => "global"
  | parameter => "parameter"
  | field => "field"
  | slot => "variable"

/-- Why a unit is no module. -/
inductive LoweringFault where
  /-- A form lacks parts or has too many. -/
  | malformed (form shape : String)
  /-- A tree stands where a part of this shape was expected. -/
  | wrongShape (shape shown : String)
  /-- At the top of a unit stands something that defines nothing. -/
  | definitionExpected
  /-- A name was expected. -/
  | nameExpected (what : Noun) (shown : String)
  /-- The language keeps this name to itself. -/
  | reserved (name : String) (what : Noun)
  /-- The name still holds a hole of a template. -/
  | unfilledHole (name : String)
  /-- The unit defines two things of a kind under one name. -/
  | definedTwice (what : Noun) (name : String)
  /-- A function has two parameters, or a struct two fields, of one name. -/
  | declaredTwice (what : Noun) (name : String)
  /-- The parameters of a function are not a list. -/
  | parameterListExpected
  /-- No type has this name. -/
  | unknownType (name : String)
  /-- The tree does not spell a type; lists get a hint at the compound types. -/
  | notAType (shown : String) (isList : Bool)
  /-- A struct would have to hold itself. -/
  | containsItself (struct : String)
  /-- The fields of a struct reach further than offsets can tell. This is the host's own
  fault, and nobody is told. -/
  | oversized (struct : String)
  /-- A field's type has no form in memory. -/
  | unstorableField (field : String) (type : Ty)
  /-- The body of a function has the wrong type. -/
  | wrongResult (function : String) (expected found : Ty)
  /-- The initialiser of a global has the wrong type. -/
  | wrongInitialiser (global : String) (expected found : Ty)
  /-- An expression has the wrong type. -/
  | typeExpected (expected found : Ty)
  /-- A number was expected. -/
  | integerExpected (found : Ty)
  /-- A pointer was expected. -/
  | pointerExpected (found : Ty)
  /-- Values of this type are never in memory. -/
  | notInMemory (type : Ty)
  /-- The head of a list is no symbol. -/
  | operatorExpected
  /-- No variable has this name; perhaps a function has. -/
  | unknownName (name : String) (isFunction : Bool)
  /-- What is assigned to is no name. -/
  | targetExpected
  /-- A global of another module is assigned to. -/
  | foreignVariable (name : String)
  /-- No variable that could be assigned to has this name. -/
  | unknownVariable (name : String)
  /-- A field's name was expected. -/
  | fieldNameExpected (shown : String)
  /-- The address of a field is asked of something that points at no struct. -/
  | structPointerExpected (target : Ty)
  /-- A field is asked of a value that is no struct. -/
  | structValueExpected (found : Ty)
  /-- A struct has no such field. -/
  | unknownField (struct field : String) (known : List String)
  /-- A value is made of a type that is no struct. -/
  | structTypeExpected (found : Ty)
  /-- A struct is made of too many or too few values. -/
  | fieldCount (struct : String) (fields values : Nat)
  /-- No value of the one type can be taken for one of the other. -/
  | notCastable (found wanted : Ty)
  /-- No sequence has elements of this type. -/
  | unsequenceable (elem : Ty)
  /-- A sequence was expected. -/
  | sequenceExpected (found : Ty)
  /-- The elements of a sequence do not fit where they are copied. -/
  | notCopyable (found target : Ty)
  /-- An operator has the wrong number of operands. -/
  | operandCount
  /-- Values of the two types are never compared. -/
  | incomparable (left right : Ty)
  /-- No function has this name. -/
  | unknownFunction (name : String)
  /-- A function is called with the wrong number of arguments. -/
  | argumentCount (function : String) (params args : Nat)
  /-- An argument has the wrong type. -/
  | wrongArgument (param function : String) (expected found : Ty)
  deriving DecidableEq, Repr

namespace LoweringFault

/-- The wording of each cause. -/
def message : LoweringFault → String
  | malformed form _ => "malformed `" ++ form ++ "`"
  | wrongShape shape shown => "expected `" ++ shape ++ "`, found `" ++ shown ++ "`"
  | definitionExpected => "expected a top-level definition"
  | nameExpected what shown => "expected a " ++ what.word ++ " name, found `" ++ shown ++ "`"
  | reserved name what => "`" ++ name ++ "` is reserved and cannot name a " ++ what.word
  | unfilledHole name => "`" ++ name ++ "` contains an unsubstituted hole"
  | definedTwice what name => what.word ++ " `" ++ name ++ "` is defined twice"
  | declaredTwice what name => what.word ++ " `" ++ name ++ "` is declared twice"
  | parameterListExpected => "expected a parameter list"
  | unknownType name => "unknown type `" ++ name ++ "`"
  | notAType shown _ => "`" ++ shown ++ "` is not a type"
  | containsItself struct => "struct `" ++ struct ++ "` contains itself by value"
  | oversized struct => "struct `" ++ struct ++ "` has more bytes than can be counted"
  | unstorableField field type =>
    "field `" ++ field ++ "` has type " ++ type.render ++ ", which has no memory representation"
  | wrongResult function expected found =>
    "function `" ++ function ++ "` returns " ++ expected.render ++ " but its body produces "
      ++ found.render
  | wrongInitialiser global expected found =>
    "global `" ++ global ++ "` has type " ++ expected.render ++ " but is initialised with "
      ++ found.render
  | typeExpected expected found => "expected " ++ expected.render ++ ", found " ++ found.render
  | integerExpected found => "expected an integer, found " ++ found.render
  | pointerExpected found => "expected a pointer, found " ++ found.render
  | notInMemory type => type.render ++ " cannot be read from or written to memory"
  | operatorExpected => "expected an operator or function name"
  | unknownName name _ => "unknown name `" ++ name ++ "`"
  | targetExpected => "`set` expects a variable name"
  | foreignVariable name => "`" ++ name ++ "` belongs to another module and cannot be assigned"
  | unknownVariable name => "unknown variable `" ++ name ++ "`"
  | fieldNameExpected shown => "expected a field name, found `" ++ shown ++ "`"
  | structPointerExpected target =>
    "`field` needs a pointer to a struct, found (ptr " ++ target.render ++ ")"
  | structValueExpected found => "`.` needs a struct value, found " ++ found.render
  | unknownField struct field _ => "`" ++ struct ++ "` has no field `" ++ field ++ "`"
  | structTypeExpected found => "`make` needs a struct type, found " ++ found.render
  | fieldCount struct fields values =>
    "`" ++ struct ++ "` has " ++ toString fields ++ " fields but " ++ toString values
      ++ " values were supplied"
  | notCastable found wanted => "cannot cast " ++ found.render ++ " to " ++ wanted.render
  | unsequenceable elem => "sequences cannot hold " ++ elem.render
  | sequenceExpected found => "`len` needs a sequence, found " ++ found.render
  | notCopyable found target =>
    "cannot copy " ++ found.render ++ " into (ptr " ++ target.render ++ ")"
  | operandCount => "binary operators take exactly two operands"
  | incomparable left right => "cannot compare " ++ left.render ++ " with " ++ right.render
  | unknownFunction name => "unknown function `" ++ name ++ "`"
  | argumentCount function params args =>
    "`" ++ function ++ "` takes " ++ toString params ++ " argument"
      ++ (if params = 1 then "" else "s") ++ " but " ++ toString args ++ " "
      ++ (if args = 1 then "was" else "were") ++ " supplied"
  | wrongArgument param function expected found =>
    "argument `" ++ param ++ "` of `" ++ function ++ "` expects " ++ expected.render
      ++ ", found " ++ found.render

/-- Advice that goes with some of the causes. -/
def help? : LoweringFault → Option String
  | malformed _ shape => some ("expected `" ++ shape ++ "`")
  | definitionExpected => some "modules contain `struct`, `fun` and `global` forms"
  | unfilledHole _ => some "instantiate the template before compiling it"
  | parameterListExpected => some "write `()` for a function without parameters"
  | notAType _ true => some "compound types are `(ptr T)` and `(seq T)`"
  | containsItself _ => some "store a `(ptr ...)` to break the cycle"
  | unknownName name true =>
    some ("`" ++ name ++ "` is a function; call it as `(" ++ name ++ " ...)`")
  | structValueExpected _ => some "use `(load (field pointer name))` to read through a pointer"
  | unknownField _ _ known => some ("fields are: " ++ ", ".intercalate known)
  | _ => none

end LoweringFault

/-- A cause and its place in the unit. -/
structure LoweringError where
  fault : LoweringFault
  span : Span
  deriving DecidableEq, Repr

/-- Refuses a unit. -/
def refuse (f : LoweringFault) (s : Span) : Except LoweringError α := .error ⟨f, s⟩

end Kiln
