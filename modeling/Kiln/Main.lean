import Kiln.CommandLine.Commands
/-!
# The program

The outermost layer: it reads the files that a command looks at, lets the command work on
them, and writes what was printed and told. While a module is watched it reads the
module's file again before every frame.
-/

namespace Kiln

namespace Program

/-- The paths a command may look at, as far as they are known from the files read so far:
its own files, the places a manifest can be at, and what the manifest names. -/
def wanted (files : Files) (command : Command) : List String :=
  let (file, manifest) := match command with
    | .run file _ manifest => (some file, manifest)
    | .check file manifest => (some file, manifest)
    | .watch file manifest _ => (file, manifest)
    | .expand template _ => (some template, none)
  let near := (file.map Path.directory).getD "."
  let places := match manifest with
    | some path => [path]
    | none => (Path.ancestors near).map fun dir => Path.join dir manifestName
  let named := (places.find? files.isFile).map fun path =>
    let root := (Path.parent? path).getD "."
    let document := (files.read path).toOption.bind Manifest.document?
    (document.map fun d =>
      (d.hotPath.toList ++ d.modules.map (·.path)).map (Path.join root)).getD []
  file.toList ++ places ++ named.getD []

/-- Reads a file, if it is there. -/
def refresh (files : Files) (path : String) : IO Files := do
  try
    let text ← IO.FS.readFile path
    return files.write path text
  catch _ => return files.remove path

/-- Reads all files that a command may look at. -/
def gather (files : Files) (command : Command) : IO Files := do
  let first ← (wanted files command).foldlM refresh files
  (wanted first command).foldlM refresh first

/-- The files of the disk, none of which was read, seen from the working directory. -/
def disk : IO Files := do
  let here := (Files.namesOf (← IO.currentDir).toString).filter (· != "")
  return { Files.empty "" with here, dirs := Files.above here ++ [here] }

/-- The written form of a notice. -/
def noticeText : Notice → String
  | .line text => text
  | .report r =>
    let place := match r.place with
      | some p => "\n  at byte " ++ toString p.offset ++ " of " ++ p.source
      | none => ""
    let help := match r.help with
      | some help => "\n  help: " ++ help
      | none => ""
    "error: " ++ r.message ++ place ++ help

/-- Writes what was printed and told, and forgets it. -/
def flush (w : Workspace) : IO Workspace := do
  let stdout ← IO.getStdout
  stdout.putStr w.store.output
  stdout.flush
  for r in w.journal.records do IO.eprintln r.render
  for n in w.journal.notices do IO.eprintln (noticeText n)
  return { w with journal := .empty, store := { w.store with output := "" } }

/-- Why all work ended. -/
def haltText : Halt → String
  | .exhausted e => e.message
  | .endless => "no end in sight"
  | .stray => "code without a target"
  | .overrun => "bytes outside of a buffer"
  | .oversized => "more bytes than there can be"

/-- The exit code when all work ended. -/
def haltCode : Halt → UInt32
  | .overrun | .oversized => 101
  | _ => 134

/-- Does some work, and writes what comes of it. -/
def perform (work : Work α) (w : Workspace) : IO (Except UInt32 (α × Workspace)) := do
  match work w with
  | .ok a w => return .ok (a, ← flush w)
  | .error h w =>
    discard (flush w)
    IO.eprintln (haltText h)
    return .error (haltCode h)

/-- Runs frames until there were enough of them. -/
partial def frames (limit : Option UInt64) (frameMs : Nat) (done : UInt64) (r : Reloader)
    (w : Workspace) :
    IO (Except UInt32 (Reloader × Workspace)) := do
  let started ← IO.monoMsNow
  let files ← refresh w.files r.path
  let changed := (files.read r.path).toOption != (w.files.read r.path).toOption
  let r := if changed then r.notify r.path else r
  match ← perform (StateT.run Reload.runFrame r) { w with files } with
  | .error code => return .error code
  | .ok (((), r), w) =>
    if limit.any (· ≤ done + 1) then return .ok (r, w)
    else
      let spent := (← IO.monoMsNow) - started
      IO.sleep (.ofNat (frameMs - spent))
      frames limit frameMs (done + 1) r w

/-- Keeps a module hot. -/
def watch (file manifest : Option String) (limit : Option UInt64) (w : Workspace) : IO UInt32 := do
  let started ← IO.monoMsNow
  match ← perform (CommandLine.startWatch file manifest).run w with
  | .error code => return code
  | .ok (.error code, _) => return .ofNat code
  | .ok (.ok (r, frameMs), w) =>
    match ← frames limit frameMs 0 r w with
    | .error code => return code
    | .ok (r, w) =>
      let elapsed := (← IO.monoMsNow) - started
      match ← perform (CommandLine.finishWatch (toString elapsed) r) w with
      | .error code => return code
      | .ok _ => return 0

/-- What there is to ask for. -/
def usage : String :=
  "usage: run FILE [--entry NAME] [--manifest FILE]\n" ++
  "       check FILE [--manifest FILE]\n" ++
  "       watch [FILE] [--manifest FILE] [--frames COUNT]\n" ++
  "       expand TEMPLATE [--bind HOLE=KIND:VALUE]..."

/-- Runs the command that the arguments make. -/
def run (arguments : List String) : IO UInt32 := do
  match CommandLine.parse arguments with
  | .error u =>
    if u.exitCode = 0 then IO.println usage else IO.eprintln usage
    return .ofNat u.exitCode
  | .ok command =>
    let files ← gather (← disk) command
    let w := Workspace.initial standardHeapLimit files
    match command with
    | .watch file manifest limit => watch file manifest limit w
    | command =>
      match ← perform (CommandLine.perform "0" command) w with
      | .ok (code, _) => return .ofNat code
      | .error code => return code

end Program

end Kiln

/-- Runs the program. -/
def main (arguments : List String) : IO UInt32 := Kiln.Program.run arguments
