import Kiln.Proofs.Machine.Memory
import Kiln.Proofs.Workspace.Compiled
/-!
# Books of owners

What goes on around a wrapper, told without its code: handles are made, duplicated and released in
any order, payloads are read and written through pointers, and other code goes about its own
business in between (`Event`). The books list the blocks that have owners, and the blocks of others
(`Books`). They say which events are allowed next (`Books.Permits`), what is answered
(`Books.Expects`), and `Books.record` enters an event. A `Trace` is a run of allowed events on
the machine, with the books that were kept of it.
-/

namespace Kiln

open Source

/-- Calls the function of a name, with calls nested so many levels deep at most. -/
def Module.call (m : Module) (lib : Library) (depth : Nat) (name : String) (args : List Value) :
    Run Value := do
  let handle ← Run.present (m.handle? name)
  invoke lib (eval lib depth) handle args

/-- A wrapper as its callers see it. -/
structure Wrapper where
  /-- The library that ends with the wrapper's module. -/
  library : Library
  code : Module
  name : String
  payload : Ty

namespace Wrapper

/-- The struct that a block is. -/
def block (W : Wrapper) : Ty := .struct ⟨W.code.id, W.name ++ "_block"⟩

/-- A handle for the block at an address. -/
def handle (W : Wrapper) (addr : UInt64) : Value :=
  .struct ⟨W.code.id, W.name⟩ [.ptr addr W.block]

/-- How many bytes the heap keeps for a block. -/
def room (W : Wrapper) : Nat := roundedSize (W.block.size W.library.layouts).toNat

/-- How many bytes a payload takes. -/
def payloadSize (W : Wrapper) : Nat := (W.payload.size W.library.layouts).toNat

end Wrapper

/-! ## Events -/

/-- What can happen next. Blocks are told by their addresses. -/
inductive Event where
  /-- A block is made for a value. -/
  | new (v : Value)
  | duplicate (addr : UInt64)
  | release (addr : UInt64)
  | count (addr : UInt64)
  /-- The payload is read through a pointer. -/
  | load (addr : UInt64)
  /-- Bytes are stored through a pointer, at some place of the payload. -/
  | store (addr : UInt64) (offset : Nat) (bytes : List UInt8)
  /-- Other code asks something of the heap. -/
  | request (r : Request)
  /-- Other code assigns globals and prints. -/
  | elsewhere (globals : Array (List Value)) (output : String)

/-- What comes of it. -/
inductive Answer where
  | value (v : Value)
  | reply (r : Except Fault Reply)

/-- Asks something of the heap. -/
def Request.run (r : Request) : Run Answer := do
  match (← get).heap.perform r with
  | .ok (answer, heap) =>
    modify fun s => { s with heap }
    pure (.reply answer)
  | .error e => Run.halt (.exhausted e)

theorem Request.run_of_error {r : Request} {s : Store} {e : Exhaustion}
    (h : s.heap.perform r = .error e) :
    r.run s = .error (.halt (.exhausted e)) s := by
  dsimp only [Request.run, Bind.bind, EStateM.bind, get, getThe, MonadStateOf.get, EStateM.get]
  rw [h]
  rfl

theorem Request.run_of_ok {r : Request} {s : Store} {reply : Except Fault Reply} {heap : Heap}
    (h : s.heap.perform r = .ok (reply, heap)) : r.run s = .ok (.reply reply) { s with heap } := by
  dsimp only [Request.run, Bind.bind, EStateM.bind, get, getThe, MonadStateOf.get, EStateM.get]
  rw [h]
  rfl

/-- Lets an event happen on the machine. -/
def Event.run (W : Wrapper) (lib : Library) (depth : Nat) : Event → Run Answer
  | .new v => do
    let handle ← W.code.call lib depth (W.name ++ "_new") [v]
    pure (.value handle)
  | .duplicate addr => do
    let handle ← W.code.call lib depth (W.name ++ "_duplicate") [W.handle addr]
    pure (.value handle)
  | .release addr => do
    let done ← W.code.call lib depth (W.name ++ "_release") [W.handle addr]
    pure (.value done)
  | .count addr => do
    let n ← W.code.call lib depth (W.name ++ "_count") [W.handle addr]
    pure (.value n)
  | .load addr => do
    let start ← W.code.call lib depth (W.name ++ "_deref") [W.handle addr]
    let v ← readAt lib.layouts W.payload start
    pure (.value v)
  | .store addr offset bytes => do
    let start ← W.code.call lib depth (W.name ++ "_deref") [W.handle addr]
    let (start, _) ← Run.lift start.asPtr
    Run.updateHeap (·.write (start + UInt64.ofNat offset) bytes)
    pure (.value .unit)
  | .request r => r.run
  | .elsewhere globals output => do
    modify fun s => { s with globals, output }
    pure (.value .unit)

/-! ## Books -/

/-- What is known of a block that has owners. -/
structure Account where
  addr : UInt64
  duplicates : Nat
  releases : Nat
  /-- The value that the block was made for, as long as nothing else was stored. -/
  content : Option Value

/-- How many owners a block has. -/
def Account.owners (a : Account) : Nat := 1 + a.duplicates - a.releases

/-- The blocks that have owners, and the blocks of others. -/
structure Books where
  accounts : List Account
  others : List Block

namespace Books

/-- All blocks. -/
def blocks (W : Wrapper) (b : Books) : List Block :=
  b.accounts.map (fun a => ⟨a.addr.toNat, W.room⟩) ++ b.others

/-- Changes the account of a block. -/
def update (b : Books) (addr : UInt64) (change : Account → Account) : Books :=
  { b with accounts := b.accounts.map fun a => if a.addr = addr then change a else a }

/-- Closes the accounts of blocks without owners. -/
def sweep (b : Books) : Books := { b with accounts := b.accounts.filter (0 < ·.owners) }

/-- Enters an event. -/
def record (b : Books) : Event → Answer → Books
  | .new v, .value (.struct _ [.ptr addr _]) =>
    { b with accounts := ⟨addr, 0, 0, some v⟩ :: b.accounts }
  | .duplicate addr, _ => b.update addr fun a => { a with duplicates := a.duplicates + 1 }
  | .release addr, _ => (b.update addr fun a => { a with releases := a.releases + 1 }).sweep
  | .store addr _ _, _ => b.update addr fun a => { a with content := none }
  | .request r, .reply answer => { b with others := r.leaves b.others answer }
  | _, _ => b

/-- What may happen next: values are of the payload's type, handles are those of blocks that have
owners, not more than a number can tell, and other code stays inside the blocks of others and gives
back no block that has owners. -/
def Permits (W : Wrapper) (lib : Library) (b : Books) : Event → Prop
  | .new v => v.Conforms lib.layouts W.payload
  | .duplicate addr => ∃ a ∈ b.accounts, a.addr = addr ∧ a.owners + 1 < 2 ^ 63
  | .release addr | .count addr | .load addr => ∃ a ∈ b.accounts, a.addr = addr
  | .store addr offset bytes =>
    (∃ a ∈ b.accounts, a.addr = addr) ∧ offset + bytes.length ≤ W.payloadSize
  | .request r => r.Within b.others ∧ ∀ addr, r = .free addr → ∀ a ∈ b.accounts, a.addr ≠ addr
  | .elsewhere _ _ => True

/-- What is answered: a block is counted to have as many owners as the books say, and is read to
hold what it was made for, as the payload's type stores it. -/
def Expects (W : Wrapper) (lib : Library) (b : Books) : Event → Answer → Prop
  | .new _, answer => ∃ addr, answer = .value (W.handle addr)
  | .duplicate addr, answer => answer = .value (W.handle addr)
  | .release _, answer => answer = .value .unit
  | .count addr, answer => ∃ a ∈ b.accounts, a.addr = addr ∧
    ∃ n : Int64, answer = .value (.int n) ∧ n.toInt = 1 + a.duplicates - a.releases
  | .load addr, answer => ∃ a ∈ b.accounts, a.addr = addr ∧
    ∀ v ∈ a.content, answer = .value (v.stored lib.layouts W.payload)
  | _, _ => True

end Books

/-! ## Traces -/

/-- An event, the library that code has by then, and how many levels deep calls may still nest. -/
structure Turn where
  library : Library
  depth : Nat
  event : Event

namespace Turn

/-- Takes the turn. -/
def run (W : Wrapper) (t : Turn) : Run Answer := t.event.run W t.library t.depth

/-- The library has what the wrapper's has, and the books permit the event. -/
def Allowed (W : Wrapper) (b : Books) (t : Turn) : Prop :=
  W.library.Grows t.library ∧ b.Permits W t.library t.event

end Turn

namespace Wrapper

/-- A turn right after the wrapper's module was made, with calls nested as deep as can be. -/
def turn (W : Wrapper) (e : Event) : Turn := ⟨W.library, maxDepth, e⟩

/-- Lets events happen one after the other. -/
def runAll (W : Wrapper) (es : List Event) : Run (List Answer) := es.mapM fun e => (W.turn e).run W

theorem runAll_cons {W : Wrapper} {e : Event} {es : List Event} {answers : List Answer}
    {s s' : Store} (h : W.runAll (e :: es) s = .ok answers s') :
      ∃ answer rest s₁, answers = answer :: rest ∧
      (W.turn e).run W s = .ok answer s₁ ∧ W.runAll es s₁ = .ok rest s' := by
  rw [runAll, List.mapM_cons] at h
  obtain ⟨answer, s₁, hfirst, h⟩ := ok_of_run_bind h
  obtain ⟨rest, s₂, hrest, h⟩ := ok_of_run_bind h
  cases h
  exact ⟨answer, rest, s₁, rfl, hfirst, hrest⟩

end Wrapper

/-- The store of a workspace, with a heap in which nothing was allocated. -/
def Workspace.freshStore (w : Workspace) : Store := { w.store with heap := .withLimit 4096 }

/-- Turns that were all allowed, with what came of them and the books that were kept. -/
inductive Trace (W : Wrapper) : Store → Books → List (Turn × Answer) → Store → Books → Prop
  | nil {s : Store} {b : Books} : Trace W s b [] s b
  | cons {s s' s'' : Store} {b b' : Books} {t : Turn} {answer : Answer}
      {rest : List (Turn × Answer)} :
      t.Allowed W b → t.run W s = .ok answer s' → Trace W s' (b.record t.event answer) rest s'' b' →
      Trace W s b ((t, answer) :: rest) s'' b'

/-- A turn more is taken. -/
theorem Trace.concat {W : Wrapper} {s s' s'' : Store} {b b' : Books}
    {trace : List (Turn × Answer)} {t : Turn} {answer : Answer} (h : Trace W s b trace s' b')
    (hallowed : t.Allowed W b') (hrun : t.run W s' = .ok answer s'') :
    Trace W s b (trace ++ [(t, answer)]) s'' (b'.record t.event answer) := by
  induction h with
  | nil => exact .cons hallowed hrun .nil
  | cons hfirst hfirstRun _ ih => exact .cons hfirst hfirstRun (ih hallowed hrun)

end Kiln
