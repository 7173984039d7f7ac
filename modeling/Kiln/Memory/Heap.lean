import Kiln.Memory.Fault
/-!
# The heap

Memory is a row of bytes that only grows. Blocks are cut from it: a block that is
asked for is taken from the first free region that is large enough, and what is left
of that region stays free; only when there is none does memory grow. Addresses below
sixteen belong to no block, so that zero can stand for no address at all.

Reading and writing check that the bytes are inside memory, not that they are inside
one block.
-/

namespace Kiln

/-- The first address that a block can have. -/
def heapBase : Nat := 16

/-- A stretch of memory. -/
structure Block where
  addr : Nat
  size : Nat
  deriving DecidableEq, Repr, Inhabited

/-- The bytes that blocks have together. -/
def Block.total : List Block → Nat
  | [] => 0
  | b :: bs => b.size + total bs

/-- The request that the limit leaves no room for. -/
structure Exhaustion where
  size : Nat
  limit : Nat
  deriving DecidableEq, Repr

/-- The wording of a request that was too large. -/
def Exhaustion.message (e : Exhaustion) : String :=
  "allocation of " ++ toString e.size ++ " bytes exceeds the heap limit of "
    ++ toString e.limit ++ " bytes"

namespace Memory

/-- Memory with `n` zero bytes more. -/
def grow : Nat → ByteArray → ByteArray
  | 0, m => m
  | n + 1, m => grow n (m.push 0)

/-- Memory with the `n` bytes from `addr` on all set to `byte`. -/
def fill (byte : UInt8) : Nat → Nat → ByteArray → ByteArray
  | 0, _, m => m
  | n + 1, addr, m => fill byte n (addr + 1) (m.set! addr byte)

/-- Memory with the bytes from `addr` on replaced. -/
def write : List UInt8 → Nat → ByteArray → ByteArray
  | [], _, m => m
  | b :: bs, addr, m => write bs (addr + 1) (m.set! addr b)

/-- The `len` bytes from `addr` on. -/
def read (m : ByteArray) (addr len : Nat) : List UInt8 :=
  (m.extract addr (addr + len)).data.toList

end Memory

/-- Bytes, and which of them belong to whom. -/
structure Heap where
  /-- The bytes, by address. -/
  memory : ByteArray
  /-- The blocks in use, the latest first. -/
  live : List Block
  /-- The regions that can be used again, in the order they are looked at. -/
  free : List Block
  /-- The size that memory never exceeds. -/
  limit : Nat

namespace Heap

/-- A heap without blocks. -/
def withLimit (limit : Nat) : Heap :=
  { memory := Memory.grow heapBase .empty, live := [], free := [], limit }

/-- The size of the block that serves a request: at least one byte, rounded up to eight,
if 64 bits can hold that. -/
def blockSize? (requested : Nat) : Option Nat :=
  let rounded := (max requested 1 + 7) / 8 * 8
  if rounded < UInt64.size then some rounded else none

/-- Takes the element at `i` out of a list; the last element takes its place. -/
def swapRemove (xs : List α) (i : Nat) : List α :=
  match xs.getLast? with
  | some last => (xs.set i last).dropLast
  | none => []

/-- What a region has left when `size` bytes are cut from its front. -/
def remainder (region : Block) (size : Nat) : List Block :=
  if size < region.size then [⟨region.addr + size, region.size - size⟩] else []

/-- Where the next block of `size` bytes lies, and the heap without it: the first region
that is large enough, or fresh memory. -/
def reserve (h : Heap) (size : Nat) : Except Exhaustion (Nat × Heap) :=
  match h.free.findIdx? (size ≤ ·.size) with
  | some i =>
    let region := h.free.getD i default
    .ok (region.addr, { h with free := swapRemove h.free i ++ remainder region size })
  | none =>
    let addr := h.memory.size
    if addr + size ≤ h.limit then
      .ok (addr, { h with memory := Memory.grow size h.memory })
    else .error ⟨size, h.limit⟩

/-- A block of zero bytes for a request. There is no way on when the limit leaves no room
for it. -/
def alloc (h : Heap) (requested : UInt64) : Except Exhaustion (UInt64 × Heap) :=
  match blockSize? requested.toNat with
  | none => .error ⟨requested.toNat, h.limit⟩
  | some size =>
    match h.reserve size with
    | .error e => .error e
    | .ok (addr, h) =>
      .ok (.ofNat addr,
        { h with
          memory := Memory.fill 0 size addr h.memory
          live := ⟨addr, size⟩ :: h.live })

/-- Whether a live block starts at an address. -/
def isLive (h : Heap) (addr : UInt64) : Bool := h.live.any (·.addr == addr.toNat)

/-- Gives a block back. -/
def release (h : Heap) (addr : UInt64) : Except Fault Heap :=
  match h.live.find? (·.addr == addr.toNat) with
  | none => .error (.invalidFree addr)
  | some block => .ok { h with live := h.live.erase block, free := h.free ++ [block] }

/-- Whether `len` bytes from `addr` on are all inside memory. -/
def contains (h : Heap) (addr len : Nat) : Bool :=
  heapBase ≤ addr && addr + len ≤ h.memory.size

/-- Refuses bytes that are not all inside memory. -/
def check (h : Heap) (addr len : UInt64) : Except Fault Unit :=
  if h.contains addr.toNat len.toNat then .ok () else .error (.badAddress addr len)

/-- The bytes at an address. -/
def read (h : Heap) (addr len : UInt64) : Except Fault (List UInt8) :=
  (h.check addr len).map fun () => Memory.read h.memory addr.toNat len.toNat

/-- Replaces the bytes at an address. -/
def write (h : Heap) (addr : UInt64) (bytes : List UInt8) : Except Fault Heap :=
  (h.check addr (.ofNat bytes.length)).map fun () =>
    { h with memory := Memory.write bytes addr.toNat h.memory }

/-- Copies bytes; they may overlap with their destination. -/
def copy (h : Heap) (dst src len : UInt64) : Except Fault Heap := do
  h.check src len
  h.check dst len
  return { h with
    memory := Memory.write (Memory.read h.memory src.toNat len.toNat) dst.toNat h.memory }

/-- Sets bytes to one value. -/
def fill (h : Heap) (addr len : UInt64) (byte : UInt8) : Except Fault Heap :=
  (h.check addr len).map fun () =>
    { h with memory := Memory.fill byte len.toNat addr.toNat h.memory }

/-- How many blocks are in use. -/
def liveBlocks (h : Heap) : Nat := h.live.length

/-- How many bytes the blocks in use have. -/
def liveBytes (h : Heap) : Nat := Block.total h.live

end Heap

end Kiln
