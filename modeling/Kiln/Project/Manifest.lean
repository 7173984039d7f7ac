import Kiln.Project.Files
import Kiln.Toml.Reader
import Kiln.Typing.TypeExpr
/-!
# The manifest

A project is described by a document next to it: the module that is kept hot, the
library modules and arrays it is compiled against, and the limit of the heap. What the
document does not mention has a default, and what it mentions needlessly is ignored.

A record of the document is written as a table, or as an array of its fields in their order; a date
or time counts as a table that has none of them. A library module may depend on the modules before
it and on the arrays.
-/

namespace Kiln

/-- What the manifest of a directory is called. -/
def manifestName : String := "cauldron.toml"

/-- How the hot module is kept. -/
structure HotSettings where
  /-- Where it is. -/
  path : Option String
  /-- How long a frame lasts, in milliseconds. -/
  frameMs : Nat
  /-- How often files are looked at, in milliseconds. -/
  pollIntervalMs : Nat
  deriving DecidableEq, Repr, Inhabited

/-- The settings of a project that has none of its own. -/
def HotSettings.standard : HotSettings := ⟨none, 16, 50⟩

/-- The limit of a heap for which none is given. -/
def standardHeapLimit : Nat := 64 * 1024 * 1024

/-- A library module. -/
structure ModuleEntry where
  name : String
  path : String
  /-- The names of the modules and arrays it is compiled against. -/
  deps : List String
  deriving DecidableEq, Repr, Inhabited

/-- The description of a project. -/
structure Manifest where
  path : String
  /-- The directory that paths in it start from. -/
  root : String
  hot : HotSettings
  heapLimit : Nat
  modules : List ModuleEntry
  /-- The types of the elements of the arrays. -/
  arrays : List TypeExpr

/-- What is wrong with a library module. -/
inductive EntryFault where
  /-- There is a module of this name already. -/
  | duplicate
  /-- It depends on what is neither a module before it nor an array. -/
  | dependency (name : String)
  deriving DecidableEq, Repr

/-- The wording of each cause. -/
def EntryFault.message : EntryFault → String
  | duplicate => "duplicate module entry"
  | dependency name =>
    "dependency `" ++ name ++ "` must be an earlier module or a declared array"

/-- Why a project has no usable description. -/
inductive ManifestError where
  /-- The document cannot be read. -/
  | file (path : String) (error : FileError)
  /-- The document is not one, or has something of another kind than it should. -/
  | document (path : String)
  /-- There is no file for a library module. -/
  | missing (module path : String) (error : FileError)
  /-- A library module is described wrongly. -/
  | entry (module : String) (fault : EntryFault)
  /-- The elements of an array have no type. -/
  | array (elem : String) (error : SyntaxError)
  deriving Repr

/-- The wording of each cause. -/
def ManifestError.message : ManifestError → String
  | file path error => path ++ ": " ++ error.message
  | document path => path ++ ": not a manifest"
  | missing module path error =>
    "module `" ++ module ++ "` points at " ++ path ++ ": " ++ error.message
  | entry module fault => "module `" ++ module ++ "`: " ++ fault.message
  | array elem error => "array element `" ++ elem ++ "` is not a type: " ++ error.message

namespace Manifest

/-- The fields of a record, of those that are there. An array has to have the first `least`
of them. -/
def fields? (names : List String) (least : Nat) :
    Toml.Value → Option (List (Option Toml.Value))
  | .moment _ => some (names.map fun _ => none)
  | v => match v.entries?, v.items? with
    | some entries, _ => some (names.map fun name => entries.lookup name)
    | none, some items =>
      if items.length < least then none else some ((List.range names.length).map (items[·]?))
    | none, none => none

/-- A field that need not be there. -/
def optional? (decode : Toml.Value → Option α) : Option Toml.Value → Option (Option α)
  | none => some none
  | some v => (decode v).map some

/-- The items of a list that need not be there. -/
def list? (decode : Toml.Value → Option α) : Option Toml.Value → Option (List α)
  | none => some []
  | some v => do (← v.items?).mapM decode

/-- What the document says, as it stands. -/
structure Document where
  hotPath : Option String
  frameMs : Option Nat
  pollIntervalMs : Option Nat
  heapLimit : Option Nat
  modules : List ModuleEntry
  arrays : List String

/-- A library module. -/
def entry? (v : Toml.Value) : Option ModuleEntry := do
  let [some name, some path, deps] ← fields? ["name", "path", "deps"] 2 v | none
  return ⟨← name.text?, ← path.text?, ← list? Toml.Value.text? deps⟩

/-- The elements of an array. -/
def element? (v : Toml.Value) : Option String := do
  let [some elem] ← fields? ["elem"] 1 v | none
  elem.text?

/-- The path and the times of the hot module. -/
def hot? (v : Toml.Value) : Option (Option String × Option Nat × Option Nat) := do
  let [path, frame, poll] ← fields? ["path", "frame_ms", "poll_interval_ms"] 3 v | none
  return (← optional? Toml.Value.text? path, ← optional? Toml.Value.nat? frame,
    ← optional? Toml.Value.nat? poll)

/-- The limit of the heap. -/
def heapLimit? (v : Toml.Value) : Option (Option Nat) := do
  let [limit] ← fields? ["heap_limit"] 1 v | none
  optional? Toml.Value.nat? limit

/-- What a document says about a project. -/
def document? (content : String) : Option Document := do
  let top ← Toml.read content
  let [hot, runtime, modules, arrays] ← fields? ["hot", "runtime", "modules", "arrays"] 0 top
    | none
  let hot ← optional? hot? hot
  let (hotPath, frameMs, pollIntervalMs) := hot.getD (none, none, none)
  let limit ← optional? heapLimit? runtime
  return {
    hotPath, frameMs, pollIntervalMs, heapLimit := limit.join
    modules := ← list? entry? modules
    arrays := ← list? element? arrays }

/-- The element type of an array. -/
def arrayOf (elem : String) : Except ManifestError TypeExpr :=
  (TypeExpr.read elem).mapError (.array elem)

/-- Adds a library module to those before it. -/
def addModule (fs : Files) (root : String) (arrays : List String) (before : List ModuleEntry)
    (m : ModuleEntry) : Except ManifestError (List ModuleEntry) := do
  if before.any (·.name == m.name) then throw (.entry m.name .duplicate)
  match m.deps.find? fun dep => !(before.any (·.name == dep) || arrays.contains dep) with
  | some dep => throw (.entry m.name (.dependency dep))
  | none =>
    let path := Path.join root m.path
    let canonical ← (fs.canonical path).mapError (.missing m.name path)
    return before ++ [{ m with path := canonical }]

/-- Makes a manifest of the text of a document. -/
def parse (fs : Files) (path content : String) : Except ManifestError Manifest := do
  let some d := document? content | throw (.document path)
  let root := (Path.parent? path).getD "."
  let arrays ← d.arrays.mapM arrayOf
  let modules ← d.modules.foldlM (addModule fs root (arrays.map (·.arrayName))) []
  let standard := HotSettings.standard
  return {
    path, root, modules, arrays
    hot :=
      { path := d.hotPath.map (Path.join root)
        frameMs := d.frameMs.getD standard.frameMs
        pollIntervalMs := d.pollIntervalMs.getD standard.pollIntervalMs }
    heapLimit := d.heapLimit.getD standardHeapLimit }

/-- Reads the manifest at a path. -/
def load (fs : Files) (path : String) : Except ManifestError Manifest := do
  let content ← (fs.read path).mapError (.file path)
  parse fs path content

/-- The manifest of a directory, or of the nearest directory above that has one. -/
def find? (fs : Files) (dir : String) : Option String :=
  ((Path.ancestors dir).map fun d => Path.join d manifestName).find? fs.isFile

end Manifest

end Kiln
