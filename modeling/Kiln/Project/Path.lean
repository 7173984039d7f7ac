/-!
# Paths

A path is a text whose steps stand between slashes. A step that is empty or a single
dot leads nowhere, except that a dot in front is kept. Nothing here looks at a disk.
-/

namespace Kiln

namespace Path

/-- The part in front of the steps: a slash for a path from the top, a dot for one that
says it starts here. -/
def head (path : String) : String :=
  match path.toList with
  | '/' :: _ => "/"
  | ['.'] => "."
  | '.' :: '/' :: _ => "."
  | _ => ""

/-- Whether a path starts at the top. -/
def isAbsolute (path : String) : Bool := head path == "/"

/-- The characters between slashes. -/
def split (cs : List Char) : List (List Char) := cs.splitOn '/'

/-- A step that leads nowhere. -/
def isIdle (step : List Char) : Bool := step == [] || step == ['.']

/-- What stands behind the head, without idle steps at the end. -/
def steps (path : String) : List (List Char) :=
  let body := path.toList.drop (head path).length
  ((split body).reverse.dropWhile isIdle).reverse

/-- The path of a head and steps. -/
def ofSteps (head : String) (steps : List (List Char)) : String :=
  head ++ String.ofList (['/'].intercalate steps)

/-- The path without its last step. The top and the empty path have none. -/
def parent? (path : String) : Option String :=
  match (steps path).reverse with
  | _ :: before => some (ofSteps (head path) (before.dropWhile isIdle).reverse)
  | [] => if head path == "." then some "" else none

/-- The path itself, its parent, the parent of that, and so on. The first argument bounds
their number. -/
def ancestorsWithin : Nat → String → List String
  | 0, path => [path]
  | n + 1, path => path :: ((parent? path).map (ancestorsWithin n)).getD []

/-- The path itself, its parent, the parent of that, and so on. -/
def ancestors (path : String) : List String := ancestorsWithin path.length path

/-- A path that starts where another ends; one from the top stays as it is. -/
def join (base path : String) : String :=
  if isAbsolute path then path
  else if base == "" || base.toList.getLast? == some '/' then base ++ path
  else base ++ "/" ++ path

/-- The last step, if it leads downwards. -/
def fileName? (path : String) : Option (List Char) :=
  match (steps path).getLast? with
  | some step => if step == ['.', '.'] then none else some step
  | none => none

/-- The last step without its last dot and what follows; a dot in front belongs to the
name. -/
def stem? (path : String) : Option String :=
  (fileName? path).map fun name =>
    match name.reverse.dropWhile (· != '.') with
    | _ :: c :: before => String.ofList (c :: before).reverse
    | _ => String.ofList name

/-- The name of the module that a file holds. -/
def moduleName (path : String) : String := (stem? path).getD "main"

/-- The directory a file is in. -/
def directory (path : String) : String :=
  match parent? path with
  | some dir => if dir == "" then "." else dir
  | none => "."

end Path

end Kiln
