/-!
# Arguments

How the words of a command line become a command. An option takes the word after it, or
what stands behind an equals sign in the same word; a value that starts with a dash has to
be given the second way. Behind a word of two dashes nothing is an option.

A value is looked at once the next one starts, or at the end; a word that means nothing is
refused right away. That decides which of two mistakes is reported.
-/

namespace Kiln

/-- What can be asked for. -/
inductive Command where
  /-- Compile a module and call one of its functions. -/
  | run (file entry : String) (manifest : Option String)
  /-- Compile a module. -/
  | check (file : String) (manifest : Option String)
  /-- Keep a module hot, for some frames or for good. -/
  | watch (file manifest : Option String) (frames : Option UInt64)
  /-- Instantiate a template. -/
  | expand (template : String) (bindings : List String)
  deriving DecidableEq, Repr

/-- Why there is no command. -/
inductive Usage where
  | help
  | version
  /-- Nothing was asked for. -/
  | nothing
  | missingArgument
  | unknownArgument
  | unknownCommand
  /-- A value is missing. -/
  | missingValue
  /-- A value is not of its kind. -/
  | wrongValue
  /-- A value is given to what takes none. -/
  | needlessValue
  /-- An option is given twice. -/
  | repeated
  deriving DecidableEq, Repr

/-- Help and the version are no mistakes. -/
def Usage.exitCode : Usage → Nat
  | help | version => 0
  | _ => 2

namespace CommandLine

/-- What a value is for. -/
inductive Slot where
  | file
  | entry
  | manifest
  | frames
  | binding
  deriving DecidableEq, Repr

/-- The commands, by their words. -/
inductive Verb where
  | run
  | check
  | watch
  | expand
  deriving DecidableEq, Repr

/-- The command of a word. -/
def Verb.ofWord? : String → Option Verb
  | "run" => some run
  | "check" => some check
  | "watch" => some watch
  | "expand" => some expand
  | _ => none

/-- The options of a command, and what their values are for. -/
def Verb.options : Verb → List (String × Slot)
  | run => [("entry", .entry), ("manifest", .manifest)]
  | check => [("manifest", .manifest)]
  | watch => [("manifest", .manifest), ("frames", .frames)]
  | expand => [("bind", .binding)]

/-- The number of frames that a value spells: digits, which a plus may precede, of a number
of 64 bits. -/
def frames? (value : String) : Option UInt64 :=
  let digits := match value.toList with
    | '+' :: cs => cs
    | cs => cs
  if digits.isEmpty || !digits.all Char.isDigit then none
  else
    let n := digits.foldl (fun n c => n * 10 + (c.toNat - '0'.toNat)) 0
    if h : n < UInt64.size then some (.ofNatLT n h) else none

/-- Refuses a value that is not of its slot's kind. -/
def Slot.check (slot : Slot) (value : String) : Except Usage Unit :=
  match slot with
  | .file | .manifest => if value == "" then .error .missingValue else .ok ()
  | .frames => if (frames? value).isSome then .ok () else .error .wrongValue
  | .entry | .binding => .ok ()

/-- Values that were looked at, and at most one that was not. -/
structure Progress where
  given : List (Slot × String)
  /-- An option or a file, with its value if that was seen already. -/
  pending : Option (Slot × Option String)
  /-- Nothing is an option any more. -/
  escaped : Bool
  /-- A file was seen. -/
  hasFile : Bool

/-- Before the first word. -/
def Progress.start : Progress := ⟨[], none, false, false⟩

/-- Looks at a value. Only bindings can be given more than once. -/
def Progress.take (p : Progress) (slot : Slot) (value : String) : Except Usage Progress := do
  if slot ≠ .binding && p.given.any (·.1 = slot) then throw .repeated
  slot.check value
  return { p with given := p.given ++ [(slot, value)] }

/-- Looks at the value that was not looked at. -/
def Progress.settle (p : Progress) : Except Usage Progress :=
  match p.pending with
  | none => .ok p
  | some (_, none) => .error .missingValue
  | some (slot, some value) => { p with pending := none }.take slot value

/-- The name of a long option in a word, and the value behind its equals sign. -/
def longOption? (word : String) : Option (String × Option String) :=
  match word.toList with
  | '-' :: '-' :: cs =>
    let name := String.ofList (cs.takeWhile (· != '='))
    match cs.dropWhile (· != '=') with
    | [] => some (name, none)
    | _ :: value => some (name, some (String.ofList value))
  | _ => none

/-- The letters of short options in a word. -/
def shortOptions? (word : String) : Option (List Char) :=
  match word.toList with
  | '-' :: c :: cs => if c = '-' then none else some (c :: cs)
  | _ => none

/-- A word that is a long option. -/
def Progress.long (verb : Verb) (p : Progress) (name : String) (value : Option String) :
    Except Usage Progress := do
  match verb.options.lookup name, value with
  | some slot, some v => (← p.settle).take slot v
  | some slot, none => return { ← p.settle with pending := some (slot, none) }
  | none, _ =>
    if name ≠ "help" then throw .unknownArgument
    else if value.isSome then throw .needlessValue
    else
      discard p.settle
      throw .help

/-- A word that is a file, or one too many. -/
def Progress.positional (p : Progress) (word : String) : Except Usage Progress := do
  if p.hasFile then throw .unknownArgument
  return { ← p.settle with pending := some (.file, some word), hasFile := true }

/-- Takes in one more word behind a command. -/
def Progress.word (verb : Verb) (p : Progress) (w : String) : Except Usage Progress := do
  if p.escaped then p.positional w
  else if w == "--" then return { p with escaped := true }
  else match longOption? w, shortOptions? w with
    | some (name, value), _ => p.long verb name value
    | none, some (c :: _) =>
      if c = 'h' then
        discard p.settle
        throw .help
      else throw .unknownArgument
    | none, _ =>
      match p.pending with
      | some (slot, none) => return { p with pending := some (slot, some w) }
      | _ => p.positional w

/-- The command that values make. -/
def Verb.command (verb : Verb) (given : List (Slot × String)) : Except Usage Command := do
  let file := given.lookup .file
  let manifest := given.lookup .manifest
  match verb, file with
  | .run, some f => return .run f ((given.lookup .entry).getD "main") manifest
  | .check, some f => return .check f manifest
  | .watch, _ => return .watch file manifest ((given.lookup .frames).bind frames?)
  | .expand, some f => return .expand f ((given.filter (·.1 = .binding)).map (·.2))
  | _, none => throw .missingArgument

/-- The command that the words behind its own word make. -/
def Verb.parse (verb : Verb) (words : List String) : Except Usage Command := do
  let p ← words.foldlM (Progress.word verb) .start
  verb.command (← p.settle).given

/-- What a request for help on something comes to. -/
def helpOn : List String → Usage
  | [] => .help
  | [topic] =>
    if topic == "help" || (Verb.ofWord? topic).isSome then .help else .unknownCommand
  | _ => .unknownCommand

/-- The command that words make, behind two dashes or not. -/
def parseFrom (escaped : Bool) : List String → Except Usage Command
  | [] => .error .nothing
  | w :: ws =>
    match Verb.ofWord? w with
    | some verb => if escaped then .error .unknownArgument else verb.parse ws
    | none =>
      if escaped then .error (if w == "help" then .unknownArgument else .unknownCommand)
      else if w == "help" then .error (helpOn ws)
      else if w == "--" then parseFrom true ws
      else match longOption? w, shortOptions? w with
        | some (name, value), _ =>
          if name ≠ "help" && name ≠ "version" then .error .unknownArgument
          else if value.isSome then .error .needlessValue
          else .error (if name == "help" then .help else .version)
        | none, some ('h' :: _) => .error .help
        | none, some ('V' :: _) => .error .version
        | none, some _ => .error .unknownArgument
        | none, none => .error .unknownCommand

/-- The command that the words of a command line make. -/
def parse (words : List String) : Except Usage Command := parseFrom false words

end CommandLine

end Kiln
