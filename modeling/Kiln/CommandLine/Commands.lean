import Kiln.CommandLine.Arguments
import Kiln.Project.Session
import Kiln.Reload.Reloader
/-!
# Commands

What each command does to a workspace, and the exit code it ends with. A command that
works on a module prepares the session of its project first: the one of the manifest that
is given, or of the nearest one above the module, or an empty one.
-/

namespace Kiln

namespace CommandLine

/-- Commands end with an exit code, some of them early. -/
abbrev Task := ExceptT Nat Work

/-- Ends with a line among the errors. -/
def fail (line : String) : Task α := do
  Work.complain line
  throw 1

/-- Work that may fail, with what to do about a failure. -/
def orElse (work : ExceptT ε Work α) (handle : ε → Work Unit) : Task α := ExceptT.mk do
  match ← work.run with
  | .ok a => return .ok a
  | .error e =>
    handle e
    return .error 1

/-- The manifest to be used. -/
def findManifest (given : Option String) (near : String) : Task (Option Manifest) := do
  let files := (← getThe Workspace).files
  match given <|> Manifest.find? files near with
  | none => return none
  | some path =>
    match Manifest.load files path with
    | .error e => fail e.message
    | .ok manifest =>
      Work.record .info ("using manifest " ++ manifest.path)
      return some manifest

/-- Reports a session that could not be prepared. -/
def reportSession : SessionError → Work Unit
  | .container e => do
    Work.record .error ("container synthesis failed: " ++ e.message)
    Work.notice (.report e.report)
  | e => Work.complain e.message

/-- Prepares the session for a module in a directory. -/
def openSession (given : Option String) (near : String) : Task Session := do
  match ← findManifest given near with
  | none => return .standalone
  | some manifest =>
    modifyThe Workspace fun w =>
      { w with store := { w.store with heap := .withLimit manifest.heapLimit } }
    orElse (Session.prepare manifest) reportSession

/-- Compiles a module and calls one of its functions, whose result is printed. -/
def run (file entry : String) (manifest : Option String) : Task Unit := do
  let session ← openSession manifest (Path.directory file)
  let some m ← Work.load file session.deps | throw 1
  match m.functions.find? (·.name = entry), m.handle? entry with
  | some f, some handle =>
    if f.params.isEmpty then
      let v ← orElse (Work.call handle []) fun e => Work.complain ("Runtime error: " ++ e.message)
      match v with
      | .unit => pure ()
      | v => Work.print (v.render (← getThe Workspace).library.layouts)
    else
      fail ("`" ++ entry ++ "` takes " ++ toString f.params.length
        ++ " arguments; only zero-argument functions can be run")
  | _, _ => fail ("`" ++ m.name ++ "` has no function named `" ++ entry ++ "`")

/-- Reads a file that a command is about. -/
def readSource (path : String) : Task String :=
  orElse (Work.readFile path) fun e =>
    Work.complain ("Failed to access " ++ path ++ ": " ++ e.message)

/-- Compiles a module. -/
def check (file : String) (manifest : Option String) : Task Unit := do
  let session ← openSession manifest (Path.directory file)
  let text ← readSource file
  let unit := SourceUnit.text (Path.moduleName file) file text
  let m ← orElse (Work.compile unit session.deps) (Work.reportCompile file)
  Work.print (file ++ ": ok (" ++ toString m.functions.length ++ " functions)")

/-- Refuses a file whose directory cannot be watched. -/
def checkWatched (files : Files) (path : String) : Except String Unit := do
  let dir := match files.canonical path with
    | .ok place => Path.directory place
    | .error _ => Path.directory path
  match files.canonical dir with
  | .ok _ => return ()
  | .error e =>
    let cause := match e with
      | .notFound => "No path was found."
      | e => e.message
    throw ("failed to watch " ++ path ++ ": " ++ cause ++ " about ["
      ++ quote (Path.join (files.pathOf files.here) dir) ++ "]")

/-- Makes the first version of the hot module. The duration of a frame comes with it, in
milliseconds. -/
def startWatch (file manifest : Option String) : Task (Reloader × Nat) := do
  let session ← openSession manifest ((file.map Path.directory).getD ".")
  let some hot := file <|> session.hot.path
    | fail "no hot module given: pass a file or set `[hot] path` in cauldron.toml"
  match checkWatched (← getThe Workspace).files hot with
  | .error line => fail line
  | .ok () =>
    let frame := session.hot.frameMs
    Work.record .info ("watching " ++ hot ++ " at " ++ toString frame ++ "ms per frame")
    return (← Reloader.start session.deps hot, frame)

/-- Ends a watch that has lasted for so many milliseconds, given as they are written. -/
def finishWatch (elapsed : String) (r : Reloader) : Work Unit := do
  let ((), r) ← StateT.run Reload.shutdown r
  Work.record .info
    ("stopped after " ++ elapsed ++ "ms and " ++ toString r.reloads ++ " reloads")

/-- Keeps a module hot for some frames. Without a number of frames there is no end. -/
def watch (elapsed : String) (file manifest : Option String) (frames : Option UInt64) :
    Task Unit := do
  let (r, _) ← startWatch file manifest
  match frames with
  | none => throwThe Halt .endless
  | some n =>
    let ((), r) ← (StateT.run (Reload.loop n) r : Work _)
    finishWatch elapsed r

/-- A text up to the first of a character, and what follows it. -/
def splitAt (c : Char) (text : String) : Option (String × String) :=
  match text.toList.dropWhile (· != c) with
  | [] => none
  | _ :: rest => some (String.ofList (text.toList.takeWhile (· != c)), String.ofList rest)

/-- What a value of a kind fills a hole with. -/
def bindingOf (hole : String) (kind : HoleKind) (value : String) : Except SyntaxError Binding :=
  match kind with
  | .ident => .ok (.ident value)
  | .type => (TypeExpr.read value).map .type
  | .fragment => (Fragment.readExpr hole value).map .fragment

/-- The binding that an argument `hole=kind:value` gives. -/
def readBinding (template : Template) (argument : String) : Task (String × Binding) := do
  let some (hole, rest) := splitAt '=' argument
    | fail ("binding `" ++ argument ++ "` is not of the form hole=kind:value")
  let some (word, value) := splitAt ':' rest
    | fail ("binding `" ++ argument ++ "` is missing its kind")
  let some kind := HoleKind.ofWord? word | fail ("unknown hole kind `" ++ word ++ "`")
  if (template.holeKind? hole).isNone then
    Work.record .warning
      ("`" ++ hole ++ "` is not declared by template `" ++ template.name ++ "`")
  match bindingOf hole kind value with
  | .ok binding => return (hole, binding)
  | .error e => fail (e.describe value)

/-- The error of a text for a reader. -/
def syntaxReport (source : String) (e : SyntaxError) : Report where
  code := none
  message := e.message
  help := e.help?
  place := some ⟨source, e.span.start, e.span.length⟩

/-- Instantiates a template and prints the result. -/
def expand (path : String) (arguments : List String) : Task Unit := do
  let text ← readSource path
  match Template.read (Path.moduleName path) text with
  | .error e =>
    Work.notice (.report (syntaxReport path e))
    throw 1
  | .ok template =>
    let bindings ← arguments.foldlM
      (fun (bindings : Bindings) argument => do
        let (hole, binding) ← readBinding template argument
        return bindings.insert hole binding)
      .empty
    match template.instantiate bindings with
    | .ok f => Work.print f.root.render
    | .error e => fail e.message

/-- What a command does, up to its exit code. -/
def perform (elapsed : String) (command : Command) : Work Nat := do
  let task := match command with
    | .run file entry manifest => run file entry manifest
    | .check file manifest => check file manifest
    | .watch file manifest frames => watch elapsed file manifest frames
    | .expand template bindings => expand template bindings
  match ← task.run with
  | .ok () => return 0
  | .error code => return code

end CommandLine

end Kiln
