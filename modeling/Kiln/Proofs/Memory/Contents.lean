import Kiln.Memory.Heap
import Kiln.Memory.Bytes
/-!
# Contents of memory

Memory is read and written byte by byte; its `contents` are the list of its bytes.
Reading is a slice of that list (`read_eq`), writing and filling are splices
(`contents_write`, `contents_fill`), and growing appends zeros (`contents_grow`).
What a slice shows of a splice depends on where the two lie: beside each other
(`slice_splice_beside`), or one inside the other (`slice_splice_inside`).
-/

namespace Kiln

variable {bytes part : List UInt8} {start size n : Nat}

/-! ## Slices and splices of a list -/

theorem getElem?_slice (i : Nat) :
    (slice bytes start size)[i]? = if i < size then bytes[start + i]? else none := by
  rw [slice, List.getElem?_take]
  split
  · rw [List.getElem?_drop]
  · rfl

theorem getElem?_splice (h : start + part.length ≤ bytes.length) (i : Nat) :
    (splice bytes start part)[i]? =
      if start ≤ i ∧ i < start + part.length then part[i - start]? else bytes[i]? := by
  have hlen : (bytes.take start).length = start := by rw [List.length_take]; omega
  rw [splice, List.append_assoc]
  rcases Nat.lt_or_ge i start with hlt | hge
  · rw [List.getElem?_append_left (by omega), List.getElem?_take, if_pos hlt,
      if_neg (by omega)]
  · rw [List.getElem?_append_right (by omega), hlen]
    rcases Nat.lt_or_ge i (start + part.length) with hin | hout
    · rw [List.getElem?_append_left (by omega), if_pos ⟨hge, hin⟩]
    · rw [List.getElem?_append_right (by omega), List.getElem?_drop, if_neg (by omega)]
      congr 1
      omega

/-- A slice inside the list has the size that was asked for. -/
theorem length_slice (h : start + size ≤ bytes.length) :
    (slice bytes start size).length = size := by
  rw [slice, List.length_take, List.length_drop]
  omega

/-- Bytes that are there are taken, -/
theorem carve_ok (h : start + size ≤ bytes.length) :
    carve bytes start size = .ok (slice bytes start size) :=
  if_pos h

/-- and all of them are the bytes themselves. -/
@[simp] theorem carve_self : carve bytes 0 bytes.length = .ok bytes := by
  rw [carve_ok (Nat.le_of_eq (Nat.zero_add _)), slice, List.drop_zero, List.take_length]

/-- A splice inside the list does not change the length. -/
theorem length_splice (h : start + part.length ≤ bytes.length) :
    (splice bytes start part).length = bytes.length := by
  simp only [splice, List.length_append, List.length_take, List.length_drop]
  omega

/-- A slice of a slice is a slice. -/
theorem slice_slice {off len : Nat} (h : off + len ≤ size) :
    slice (slice bytes start size) off len = slice bytes (start + off) len := by
  refine List.ext_getElem? fun i => ?_
  rw [getElem?_slice, getElem?_slice, getElem?_slice]
  by_cases hi : i < len
  · rw [if_pos hi, if_pos hi, if_pos (by omega), Nat.add_assoc]
  · rw [if_neg hi, if_neg hi]

/-- **A splice changes nothing beside it.** -/
theorem slice_splice_beside (h : start + part.length ≤ bytes.length)
    (hsep : n + size ≤ start ∨ start + part.length ≤ n) :
    slice (splice bytes start part) n size = slice bytes n size := by
  refine List.ext_getElem? fun i => ?_
  rw [getElem?_slice, getElem?_slice]
  by_cases hi : i < size
  · rw [if_pos hi, if_pos hi, getElem?_splice h, if_neg (by omega)]
  · rw [if_neg hi, if_neg hi]

/-- **A slice around a splice shows the splice in its place.** -/
theorem slice_splice_inside (hlo : n ≤ start) (hhi : start + part.length ≤ n + size)
    (hin : n + size ≤ bytes.length) :
    slice (splice bytes start part) n size = splice (slice bytes n size) (start - n) part := by
  have hlen : (slice bytes n size).length = size := length_slice hin
  refine List.ext_getElem? fun i => ?_
  rw [getElem?_slice, getElem?_splice (by omega), getElem?_splice (by rw [hlen]; omega),
    getElem?_slice]
  by_cases hi : i < size
  · rw [if_pos hi, if_pos hi]
    by_cases hp : start ≤ n + i ∧ n + i < start + part.length
    · rw [if_pos hp, if_pos (by omega)]
      congr 1
      omega
    · rw [if_neg hp, if_neg (by omega)]
  · rw [if_neg hi, if_neg hi, if_neg (by omega)]

/-- What was spliced in is what its place shows. -/
theorem slice_splice_self (hpart : part.length = size) (h : start + size ≤ bytes.length) :
    slice (splice bytes start part) start size = part := by
  subst hpart
  rw [slice_splice_inside (Nat.le_refl _) (Nat.le_refl _) h, Nat.sub_self, splice, List.take_zero,
    List.nil_append, Nat.zero_add, List.drop_eq_nil_of_le (Nat.le_of_eq (length_slice h)),
    List.append_nil]

namespace Memory

variable {m : ByteArray} {addr : Nat}

/-- The bytes of memory, by address. -/
def contents (m : ByteArray) : List UInt8 := m.data.toList

@[simp] theorem length_contents : (contents m).length = m.size := by
  rw [contents, Array.length_toList]; rfl

theorem contents_set! (i : Nat) (b : UInt8) : contents (m.set! i b) = (contents m).set i b := by
  rw [contents, contents, ByteArray.set!, Array.set!_eq_setIfInBounds,
    Array.toList_setIfInBounds]

/-- Reading is a slice. -/
theorem read_eq (addr len : Nat) : read m addr len = slice (contents m) addr len := by
  rw [read, ByteArray.data_extract, Array.toList_extract, List.extract_eq_take_drop, slice,
    contents, Nat.add_sub_cancel_left]

/-- Writing one byte after the other is a splice. -/
theorem contents_write : ∀ {bs : List UInt8} {addr : Nat} {m : ByteArray},
    addr + bs.length ≤ m.size → contents (write bs addr m) = splice (contents m) addr bs
  | [], addr, m, _ => by simp [write, splice]
  | b :: bs, addr, m, h => by
    rw [List.length_cons] at h
    have hlen : (contents (m.set! addr b)).length = m.size := by
      rw [contents_set!, List.length_set, length_contents]
    have hsize : (m.set! addr b).size = m.size := by rw [← length_contents, hlen]
    rw [write, contents_write (by omega), contents_set!]
    refine List.ext_getElem? fun i => ?_
    rw [getElem?_splice (by rw [List.length_set, length_contents]; omega),
      getElem?_splice (by rw [length_contents, List.length_cons]; omega), List.getElem?_set,
      List.length_cons, length_contents]
    -- the byte at `addr` comes from the head, those behind it from the rest
    rcases Nat.lt_trichotomy i addr with hlt | rfl | hgt
    · rw [if_neg (by omega), if_neg (by omega), if_neg (by omega)]
    · rw [if_neg (by omega), if_pos rfl, if_pos (by omega), if_pos (by omega), Nat.sub_self]
      rfl
    · by_cases hin : i < addr + 1 + bs.length
      · rw [if_pos ⟨hgt, hin⟩, if_pos (by omega), show i - addr = i - (addr + 1) + 1 by omega]
        rfl
      · rw [if_neg (by omega), if_neg (by omega), if_neg (by omega)]

/-- Filling is writing one byte over and over. -/
theorem fill_eq_write (byte : UInt8) : ∀ (n addr : Nat) (m : ByteArray),
    fill byte n addr m = write (List.replicate n byte) addr m
  | 0, _, _ => rfl
  | n + 1, addr, m => by
    rw [fill, List.replicate_succ, write, fill_eq_write byte n]

/-- Filling is a splice. -/
theorem contents_fill {byte : UInt8} (h : addr + n ≤ m.size) :
    contents (fill byte n addr m) = splice (contents m) addr (List.replicate n byte) := by
  rw [fill_eq_write, contents_write (by rw [List.length_replicate]; exact h)]

/-- Growing appends zeros. -/
theorem contents_grow : ∀ (n : Nat) (m : ByteArray),
    contents (grow n m) = contents m ++ List.replicate n 0
  | 0, m => by rw [grow, List.replicate_zero, List.append_nil]
  | n + 1, m => by
    rw [grow, contents_grow n, List.replicate_succ, List.append_cons]
    congr 1
    rw [contents, contents, ByteArray.data_push, Array.toList_push]

@[simp] theorem size_grow (n : Nat) (m : ByteArray) : (grow n m).size = m.size + n := by
  rw [← length_contents, contents_grow, List.length_append, length_contents,
    List.length_replicate]

/-- Writing keeps the size of memory. -/
theorem size_write :
    ∀ (bs : List UInt8) (addr : Nat) (m : ByteArray), (write bs addr m).size = m.size
  | [], _, _ => rfl
  | b :: bs, addr, m => by
    rw [write, size_write bs, ← length_contents, contents_set!, List.length_set, length_contents]

/-- Filling keeps the size of memory. -/
theorem size_fill (byte : UInt8) (n addr : Nat) (m : ByteArray) :
    (fill byte n addr m).size = m.size := by
  rw [fill_eq_write, size_write]

end Memory

end Kiln
