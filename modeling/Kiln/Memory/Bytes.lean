import Kiln.Memory.Value
/-!
# Values as bytes

How a value lies in memory: numbers and addresses take eight bytes, the lowest first,
except that a `u8` and a truth value take one; a struct has its fields at their
offsets. What an integer has too many bits for is cut off. Bytes are only ever taken from a buffer
that has them; whoever asks for others overruns it. A buffer has fewer bytes than half of all
addresses, and whoever asks for a larger one gets none.
-/

namespace Kiln

/-- The lowest bytes of a number, the lowest first. -/
def lowBytes : Nat → Nat → List UInt8
  | 0, _ => []
  | k + 1, n => .ofNat n :: lowBytes k (n / 256)

/-- The eight bytes of a word, the lowest first. -/
def wordBytes (w : UInt64) : List UInt8 := lowBytes 8 w.toNat

/-- The number that bytes spell, the lowest first. -/
def bytesValue : List UInt8 → Nat
  | [] => 0
  | b :: bs => b.toNat + 256 * bytesValue bs

/-- The word that the first eight bytes spell. -/
def wordOfBytes (bytes : List UInt8) : UInt64 := .ofNat (bytesValue (bytes.take 8))

/-- The bytes from `start` on, `size` of them. -/
def slice (bytes : List UInt8) (start size : Nat) : List UInt8 := (bytes.drop start).take size

/-- The same bytes, of a buffer that has to have them. -/
def carve (bytes : List UInt8) (start size : Nat) : Except Fault (List UInt8) :=
  if start + size ≤ bytes.length then .ok (slice bytes start size) else .error .overrun

/-- A buffer has fewer bytes than this, which is half of all addresses. -/
def bufferLimit : Nat := 0x8000000000000000

/-- The bytes with those from `start` on replaced. -/
def splice (bytes : List UInt8) (start : Nat) (part : List UInt8) : List UInt8 :=
  bytes.take start ++ part ++ bytes.drop (start + part.length)

namespace Value

mutual

/-- Writes a value of a type over the bytes at its place. -/
def encodeOver (Γ : Layouts) : Value → Ty → List UInt8 → Except Fault (List UInt8)
  | unit, .unit, bytes => .ok bytes
  | v, .bool, _ => do return [if ← v.asBool then 1 else 0]
  | v, .u8, _ => do return [(← v.asInt).toUInt64.toUInt8]
  | v, .i64, _ => do return wordBytes (← v.asInt).toUInt64
  | v, .u64, _ => do return wordBytes (← v.asInt).toUInt64
  | ptr addr _, .ptr _, _ => .ok (wordBytes addr)
  | int n, .ptr _, _ => .ok (wordBytes n.toUInt64)
  | struct own fields, .struct ref, bytes =>
    if own = ref then
      match Γ.find? ref with
      | some layout => encodeFields Γ fields layout.fields bytes
      | none => .error (.mismatch (.noLayout ref.name))
    else .error (.mismatch (.notStorable own.name ref.name))
  | v, t, _ => .error (.mismatch (.notStorable v.typeName t.render))

/-- Writes the fields of a struct over the bytes of the struct. -/
def encodeFields (Γ : Layouts) :
    List Value → List Field → List UInt8 → Except Fault (List UInt8)
  | v :: vs, f :: fs, bytes => do
    let place ← carve bytes f.offset.toNat (f.type.size Γ).toNat
    let part ← encodeOver Γ v f.type place
    encodeFields Γ vs fs (splice bytes f.offset.toNat part)
  | _, _, bytes => .ok bytes

end

/-- The bytes of a value that is stored as a type, written into a buffer of zeros. -/
def encode (Γ : Layouts) (v : Value) (t : Ty) : Except Fault (List UInt8) :=
  if (t.size Γ).toNat < bufferLimit then encodeOver Γ v t (List.replicate (t.size Γ).toNat 0)
  else .error .oversized

/-- The value of a type that bytes spell, where structs lie at most the given number of
levels inside each other. -/
def decodeWithin (Γ : Layouts) : Nat → Ty → List UInt8 → Except Fault Value
  | _, .unit, _ => .ok unit
  | _, .bool, bytes => do return bool ((← carve bytes 0 1).headD 0 != 0)
  | _, .u8, bytes => do return int ((← carve bytes 0 1).headD 0).toUInt64.toInt64
  | _, .i64, bytes | _, .u64, bytes => do return int (wordOfBytes (← carve bytes 0 8)).toInt64
  | _, .ptr target, bytes => do return ptr (wordOfBytes (← carve bytes 0 8)) target
  | _, .str, _ => .error (.mismatch (.notLoadable Ty.str.render))
  | _, .seq elem, _ => .error (.mismatch (.notLoadable (Ty.seq elem).render))
  | 0, .struct ref, _ => .error (.mismatch (.noLayout ref.name))
  | n + 1, .struct ref, bytes =>
    match Γ.find? ref with
    | some layout => do
      let fields ← layout.fields.mapM fun f => do
        decodeWithin Γ n f.type (← carve bytes f.offset.toNat (f.type.size Γ).toNat)
      return struct ref fields
    | none => .error (.mismatch (.noLayout ref.name))

/-- The value of a type that bytes spell. -/
def decode (Γ : Layouts) (t : Ty) (bytes : List UInt8) : Except Fault Value :=
  decodeWithin Γ Γ.count t bytes

/-- The sequence of some items, each stored as the element type, in a buffer that has room for all
of them. -/
def ofItems (Γ : Layouts) (elem : Ty) (items : List Value) : Except Fault Value :=
  if items.length * (elem.size Γ).toNat < bufferLimit then do
    let parts ← items.mapM fun v => encode Γ v elem
    return seq elem (.ofNat items.length) parts.flatten
  else .error .oversized

end Value

end Kiln
