import Kiln.Project.Path
/-!
# Files

The files below a root directory, and what paths lead to that start there or in one of
the directories below. A path is followed step by step, and every step but the last has
to be a directory, also when what follows is a step that leads nowhere. Above the root
there is nothing to be found.
-/

namespace Kiln

/-- Why a path cannot be used. -/
inductive FileError where
  | notFound
  | notDirectory
  | isDirectory
  | nameTooLong
  | zeroByte
  deriving DecidableEq, Repr

/-- The wording of each cause. -/
def FileError.message : FileError → String
  | notFound => "No such file or directory (os error 2)"
  | notDirectory => "Not a directory (os error 20)"
  | isDirectory => "Is a directory (os error 21)"
  | nameTooLong => "File name too long (os error 36)"
  | zeroByte => "file name contained an unexpected NUL byte"

/-- What a path leads to. -/
inductive Place where
  /-- The file or directory that these names lead to, if there is one. -/
  | inside (names : List String)
  /-- A directory above. -/
  | above
  /-- Nothing. -/
  | nowhere
  deriving DecidableEq, Repr

/-- A directory and all that is below it. -/
structure Files where
  /-- Where the directory is, without a slash at the end. -/
  root : String
  /-- The directory that paths start from, by the names that lead to it. -/
  here : List String
  /-- The directories below, each by the names that lead to it. -/
  dirs : List (List String)
  /-- The files below and their texts. -/
  texts : List (List String × String)
  deriving Repr

namespace Files

/-- A directory with nothing below. -/
def empty (root : String) : Files := ⟨root, [], [], []⟩

/-- The path from the top to what some names lead to. -/
def pathOf (fs : Files) (names : List String) : String := "/".intercalate (fs.root :: names)

/-- The text of a file. -/
def text? (fs : Files) (names : List String) : Option String := fs.texts.lookup names

/-- Whether a place is a directory. -/
def isDirectory (fs : Files) : Place → Bool
  | .inside names => names == [] || fs.dirs.contains names
  | .above => true
  | .nowhere => false

/-- Whether there is a file at a place. -/
def hasFile (fs : Files) : Place → Bool
  | .inside names => (fs.text? names).isSome
  | _ => false

/-- The longest name in bytes that a file can have. -/
def longestName : Nat := 255

/-- The longest path in bytes that can be followed. -/
def longestPath : Nat := 4095

/-- One step. -/
def step (fs : Files) (place : Place) (name : String) : Except FileError Place :=
  if !fs.isDirectory place then
    .error (if fs.hasFile place then .notDirectory else .notFound)
  else if name == "" || name == "." then .ok place
  else if name == ".." then
    match place with
    | .inside (n :: ns) => .ok (.inside (n :: ns).dropLast)
    | _ => .ok .above
  else if longestName < name.utf8ByteSize then .error .nameTooLong
  else match place with
    | .inside names => .ok (.inside (names ++ [name]))
    | _ => .ok .nowhere

/-- The steps of a path. -/
def namesOf (path : String) : List String := (Path.split path.toList).map String.ofList

/-- Where a path starts, and the steps it goes on with. -/
def start (fs : Files) (path : String) : Place × List String :=
  if path == fs.root || (fs.root ++ "/").toList.isPrefixOf path.toList then
    (.inside [], namesOf (String.ofList (path.toList.drop fs.root.length)))
  else if Path.isAbsolute path then (.above, namesOf path)
  else (.inside fs.here, namesOf path)

/-- The place a path leads to, which may be empty. -/
def follow (fs : Files) (path : String) : Except FileError Place :=
  if path.toList.contains '\x00' then .error .zeroByte
  else if path == "" then .error .notFound
  else if longestPath < path.utf8ByteSize then .error .nameTooLong
  else
    let (place, names) := fs.start path
    names.foldlM fs.step place

/-- The text of the file at a path. -/
def read (fs : Files) (path : String) : Except FileError String := do
  let place ← fs.follow path
  if fs.isDirectory place then throw .isDirectory
  match place with
  | .inside names =>
    match fs.text? names with
    | some text => return text
    | none => throw .notFound
  | _ => throw .notFound

/-- Whether a path leads to a file. -/
def isFile (fs : Files) (path : String) : Bool :=
  match fs.follow path with
  | .ok place => fs.hasFile place
  | .error _ => false

/-- The path from the top to what a path leads to. -/
def canonical (fs : Files) (path : String) : Except FileError String := do
  let place ← fs.follow path
  if !(fs.isDirectory place || fs.hasFile place) then throw .notFound
  match place with
  | .inside names => return fs.pathOf names
  | _ => return Path.join fs.root ".."

/-- The names that lead to where a path would be if all its steps were directories. -/
def lexical (fs : Files) (path : String) : List String :=
  let (place, names) := fs.start path
  let first := match place with
    | .inside names => names
    | _ => []
  names.foldl
    (fun names name =>
      if name == "" || name == "." then names
      else if name == ".." then names.dropLast
      else names ++ [name])
    first

/-- The directories that lead to a file. -/
def above (names : List String) : List (List String) :=
  (List.range names.length).map names.take

/-- A file more, or another text for one; the directories it is in are made. -/
def write (fs : Files) (path text : String) : Files :=
  let names := fs.lexical path
  { fs with
    dirs := fs.dirs ++ (above names).filter fun dir => !fs.isDirectory (.inside dir)
    texts := (names, text) :: fs.texts.filter (·.1 != names) }

/-- Without a file. -/
def remove (fs : Files) (path : String) : Files :=
  let names := fs.lexical path
  { fs with texts := fs.texts.filter (·.1 != names) }

end Files

end Kiln
