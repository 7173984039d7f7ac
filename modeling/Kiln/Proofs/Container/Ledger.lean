import Kiln.Proofs.Container.Books
/-!
# Ledgers of arrays

What goes on around the arrays of one type, told without its code: arrays are made of sequences,
asked for their lengths and elements, and their handles duplicated and released in any order, while
other code goes about its own business (`ArrayType.Event`). A ledger is the books of who owns which
array, and whether the distance of the elements from the start of a block was measured
(`ArrayType.Ledger`). It says which events are allowed next (`Ledger.Permits`) and what is answered
(`Ledger.Expects`); a `ArrayType.Trace` is a run of allowed events on the machine, with the ledger
that was kept of it.
-/

namespace Kiln

open Source

/-- A type of arrays as its callers see it. -/
structure ArrayType where
  /-- The library that ends with the modules of the wrapper and of the operations. -/
  library : Library
  wrapper : Module
  operations : Module
  name : String
  elem : Ty

namespace ArrayType

variable (A : ArrayType)

/-- The struct that a block is. -/
def block : Ty := .struct ⟨A.wrapper.id, A.name ++ "_block"⟩

/-- A handle for the array at an address. -/
def handle (addr : UInt64) : Value := .struct ⟨A.wrapper.id, A.name⟩ [.ptr addr A.block]

/-- Where a field of a struct of the wrapper lies. -/
def offsetOf (struct field : String) : UInt64 :=
  (((A.library.layouts.find? ⟨A.wrapper.id, struct⟩).bind (·.field? field)).map (·.offset)).getD 0

/-- How far the elements are from the start of a block: the place of the payload there, and that of
the first element in the payload. -/
def dataOffset : UInt64 :=
  A.offsetOf (A.name ++ "_block") "payload" + A.offsetOf (A.name ++ "_header") "first"

/-- How many bytes an element takes. -/
def stride : UInt64 := A.elem.size A.library.layouts

/-- How many bytes the heap keeps for the array that is made of a sequence. -/
def room : Option Value → Nat
  | some (.seq _ n _) => roundedSize (A.dataOffset.toNat + n.toNat * A.stride.toNat)
  | _ => 0

/-- The value is the sequence of the items. Each of them takes more room than a word, so there are
fewer than would fill memory. -/
structure Lists (items : List Value) (v : Value) : Prop where
  few : items.length < 2 ^ 59
  conforms : ∀ item ∈ items, item.Conforms A.library.layouts A.elem
  spelled : Value.ofItems A.library.layouts A.elem items = .ok v

/-! ## Events -/

/-- What can happen next. Arrays are told by the addresses of their blocks. -/
inductive Event where
  /-- An array is made of a sequence. -/
  | new (v : Value)
  | length (addr : UInt64)
  /-- An element is read. -/
  | index (addr : UInt64) (i : Nat)
  /-- It is asked where an element lies. -/
  | locate (addr : UInt64) (i : Nat)
  | duplicate (addr : UInt64)
  | release (addr : UInt64)
  | count (addr : UInt64)
  /-- Other code asks something of the heap. -/
  | request (r : Request)
  /-- Other code changes what is not the heap. -/
  | elsewhere (change : Store → Store)

/-- Calls an operation. -/
def operate (lib : Library) (depth : Nat) (suffix : String) (args : List Value) : Run Answer := do
  let v ← A.operations.call lib depth (A.name ++ suffix) args
  pure (.value v)

/-- Calls a function of the wrapper. -/
def handled (lib : Library) (depth : Nat) (suffix : String) (addr : UInt64) : Run Answer := do
  let v ← A.wrapper.call lib depth (A.name ++ suffix) [A.handle addr]
  pure (.value v)

/-- Lets an event happen on the machine. -/
def Event.run (lib : Library) (depth : Nat) : Event → Run Answer
  | .new v => A.operate lib depth "_new" [v]
  | .length addr => A.operate lib depth "_length" [A.handle addr]
  | .index addr i => A.operate lib depth "_index" [A.handle addr, .int (.ofNat i)]
  | .locate addr i => A.operate lib depth "_index_address" [A.handle addr, .int (.ofNat i)]
  | .duplicate addr => A.handled lib depth "_duplicate" addr
  | .release addr => A.handled lib depth "_release" addr
  | .count addr => A.handled lib depth "_count" addr
  | .request r => r.run
  | .elsewhere change => do
    modify change
    pure (.value .unit)

/-! ## Ledgers -/

/-- The arrays that have owners, with the sequences they were made of, and whether the distance of
their elements was measured. -/
structure Ledger where
  books : Books
  measured : Bool

namespace Ledger

variable (b : Ledger)

/-- All blocks. -/
def blocks : List Block :=
  b.books.accounts.map (fun a => ⟨a.addr.toNat, A.room a.content⟩) ++ b.books.others

/-- Enters an event. -/
def record : Event → Answer → Ledger
  | .new v, answer => ⟨b.books.record (.new v) answer, true⟩
  | .duplicate addr, answer => { b with books := b.books.record (.duplicate addr) answer }
  | .release addr, answer => { b with books := b.books.record (.release addr) answer }
  | .request r, answer => { b with books := b.books.record (.request r) answer }
  | _, _ => b

/-- An array of the items has owners, and lies at the address. -/
def Has (addr : UInt64) (items : List Value) : Prop :=
  ∃ a ∈ b.books.accounts, a.addr = addr ∧ ∃ v ∈ a.content, A.Lists items v

/-- What may happen next: arrays are made of sequences, handles are those of arrays that have
owners, not more than a number can tell, and places are below the length. Other code stays inside
the blocks of others, gives back no array and leaves alone the global that the distance is kept
in. -/
def Permits : Event → Prop
  | .new v => ∃ items, A.Lists items v
  | .length addr | .release addr | .count addr => ∃ a ∈ b.books.accounts, a.addr = addr
  | .index addr i | .locate addr i => ∃ items, b.Has A addr items ∧ i < items.length
  | .duplicate addr => ∃ a ∈ b.books.accounts, a.addr = addr ∧ a.owners + 1 < 2 ^ 63
  | .request r =>
    r.Within b.books.others ∧ ∀ addr, r = .free addr → ∀ a ∈ b.books.accounts, a.addr ≠ addr
  | .elsewhere change => ∀ s, (change s).heap = s.heap ∧
    (change s).global? A.operations.id 0 = s.global? A.operations.id 0

/-- What is answered: an array is as long as the sequence it was made of, its elements are the items
as their type stores them, and they lie one stride behind the other, from the distance on and inside
of the array's block. -/
def Expects : Event → Answer → Prop
  | .new _, answer => ∃ addr, answer = .value (A.handle addr)
  | .length addr, answer => ∀ items, b.Has A addr items →
    ∃ n : Int64, answer = .value (.int n) ∧ n.toInt = items.length
  | .index addr i, answer => ∀ items, b.Has A addr items → ∀ item, items[i]? = some item →
    answer = .value (item.stored A.library.layouts A.elem)
  | .locate addr i, answer => ∃ a ∈ b.books.accounts, a.addr = addr ∧ ∃ p,
    answer = .value (.ptr p A.elem) ∧
      p.toNat = addr.toNat + A.dataOffset.toNat + i * A.stride.toNat ∧
      p.toNat + A.stride.toNat ≤ addr.toNat + A.room a.content
  | .duplicate addr, answer => answer = .value (A.handle addr)
  | .release _, answer => answer = .value .unit
  | .count addr, answer => ∃ a ∈ b.books.accounts, a.addr = addr ∧
    ∃ n : Int64, answer = .value (.int n) ∧ n.toInt = 1 + a.duplicates - a.releases
  | _, _ => True

end Ledger

/-! ## Traces -/

/-- An event, the library that code has by then, and how many levels deep calls may still nest. -/
structure Turn where
  library : Library
  depth : Nat
  event : Event

namespace Turn

/-- Takes the turn. -/
def run (t : Turn) : Run Answer := t.event.run A t.library t.depth

/-- The library has what the array's has, and the ledger permits the event. -/
def Allowed (b : Ledger) (t : Turn) : Prop := A.library.Grows t.library ∧ b.Permits A t.event

end Turn

/-- Turns that were all allowed, with what came of them and the ledger that was kept. -/
inductive Trace : Store → Ledger → List (Turn × Answer) → Store → Ledger → Prop
  | nil {s : Store} {b : Ledger} : Trace s b [] s b
  | cons {s s' s'' : Store} {b b' : Ledger} {t : Turn} {answer : Answer}
      {rest : List (Turn × Answer)} :
      t.Allowed A b → t.run A s = .ok answer s' → Trace s' (b.record t.event answer) rest s'' b' →
      Trace s b ((t, answer) :: rest) s'' b'

end ArrayType

end Kiln
