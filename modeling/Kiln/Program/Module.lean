import Kiln.Program.Code
/-!
# Modules

A module is what a unit compiles to: functions, structs and globals, each under a
name of its own. Modules never change once they are compiled; the values of their
globals belong to the machine. A `Library` holds every module compiled so far, each
at the place that its number says.
-/

namespace Kiln

/-- Functions that the host provides. -/
inductive Native where
  | malloc
  | free
  | memcpy
  | memset
  | panic
  | print
  | printInt
  | sleepMs
  deriving DecidableEq, Repr, Inhabited

/-- What a call of a function does. -/
inductive Body where
  /-- Runs code in a frame with this many slots. -/
  | code (slots : Nat) (code : Code)
  | native (op : Native)
  deriving Repr, Inhabited

/-- A parameter of a function: its name and its type. -/
abbrev Param := String × Ty

/-- A function of a module. -/
structure Function where
  name : String
  params : List Param
  result : Ty
  body : Body
  deriving Repr, Inhabited

/-- A struct of a module, laid out. -/
structure StructDef where
  name : String
  layout : Layout
  deriving Repr, Inhabited

/-- A global of a module. -/
structure Global where
  name : String
  type : Ty
  deriving DecidableEq, Repr, Inhabited

/-- A compiled unit. -/
structure Module where
  id : ModuleId
  name : String
  /-- The modules it was compiled against, in the order names are looked up in them. -/
  deps : List ModuleId
  functions : List Function
  structs : List StructDef
  globals : List Global
  deriving Repr, Inhabited

namespace Module

/-- The place of a function. -/
def functionIndex? (m : Module) (name : String) : Option Nat :=
  m.functions.findIdx? (·.name = name)

/-- The place of a global. -/
def globalIndex? (m : Module) (name : String) : Option Nat :=
  m.globals.findIdx? (·.name = name)

/-- The layout of a struct. -/
def layout? (m : Module) (name : String) : Option Layout :=
  (m.structs.find? (·.name = name)).map (·.layout)

/-- The type that a struct of the module is. -/
def structType? (m : Module) (name : String) : Option Ty :=
  (m.layout? name).map fun _ => .struct ⟨m.id, name⟩

end Module

/-- A function, by its module and its place there. -/
structure FunctionHandle where
  home : ModuleId
  index : Nat
  deriving DecidableEq, Repr, Inhabited

namespace Module

/-- The handle of a function. -/
def handle? (m : Module) (name : String) : Option FunctionHandle :=
  (m.functionIndex? name).map (⟨m.id, ·⟩)

/-- The base library, which every module sees behind its dependencies. -/
def base : Module where
  id := ⟨0⟩
  name := "base"
  deps := []
  functions :=
    [native "malloc" [("size", .u64)] .bytePtr .malloc,
      native "free" [("ptr", .bytePtr)] .unit .free,
      native "memcpy" [("dst", .bytePtr), ("src", .bytePtr), ("len", .u64)] .unit .memcpy,
      native "memset" [("dst", .bytePtr), ("byte", .u8), ("len", .u64)] .unit .memset,
      native "panic" [("message", .str)] .unit .panic,
      native "print" [("message", .str)] .unit .print,
      native "print_int" [("value", .i64)] .unit .printInt,
      native "sleep_ms" [("millis", .u64)] .unit .sleepMs]
  structs := []
  globals := []
where
  /-- A function that the host provides. -/
  native (name : String) (params : List Param) (result : Ty) (op : Native) : Function :=
    ⟨name, params, result, .native op⟩

end Module

/-- All modules so far, each at the place its number says. -/
structure Library where
  modules : Array Module
  deriving Inhabited

namespace Library

/-- The base library alone. -/
def initial : Library := ⟨#[Module.base]⟩

/-- The module of a number. -/
def find? (lib : Library) (id : ModuleId) : Option Module := lib.modules[id.index]?

/-- The number that the next module gets. -/
def nextId (lib : Library) : ModuleId := ⟨lib.modules.size⟩

/-- The function of a handle. -/
def function? (lib : Library) (handle : FunctionHandle) : Option Function := do
  let m ← lib.find? handle.home
  m.functions[handle.index]?

/-- The layouts of all structs. -/
def layouts (lib : Library) : Layouts where
  find? ref := (lib.find? ref.home).bind (·.layout? ref.name)
  count := lib.modules.foldl (fun n m => n + m.structs.length) 0

/-- One module more. -/
def push (lib : Library) (m : Module) : Library := ⟨lib.modules.push m⟩

end Library

end Kiln
