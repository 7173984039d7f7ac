import Kiln.Proofs.Memory.Contents
import Mathlib.Data.List.Basic
import Mathlib.Data.List.Pairwise
import Mathlib.Data.List.Perm.Basic
/-!
# Blocks tile memory

The blocks in use and the free regions, put in a row by address, cover memory from
`heapBase` to its end with no gap and no overlap (`Tiles`). That is all there is to say
about a sound heap (`Heap.Sound`): the order of the free list does not matter, so giving
a block back is a change of order alone, and taking one cuts a tile in two or adds one at
the end. Every call keeps it (`Sound.alloc`, `Sound.release`, `Sound.of_memory`).
-/

namespace Kiln

namespace Block

/-- Where a block ends. -/
def stop (b : Block) : Nat := b.addr + b.size

/-- Blocks that share no byte. -/
def Apart (a b : Block) : Prop := a.stop ≤ b.addr ∨ b.stop ≤ a.addr

instance : Std.Symm Apart := ⟨fun _ _ h => Or.symm h⟩

/-- `len` bytes from `addr` on lie in a block. -/
def Covers (b : Block) (addr len : Nat) : Prop := b.addr ≤ addr ∧ addr + len ≤ b.stop

instance (b : Block) (addr len : Nat) : Decidable (b.Covers addr len) :=
  inferInstanceAs (Decidable (_ ∧ _))

end Block

/-- Blocks that follow each other without a gap from one address to another, each of a
positive multiple of eight bytes. -/
def Tiles : Nat → List Block → Nat → Prop
  | start, [], stop => start = stop
  | start, b :: bs, stop => b.addr = start ∧ 0 < b.size ∧ 8 ∣ b.size ∧ Tiles b.stop bs stop

namespace Tiles

variable {start stop : Nat} {row more : List Block} {b : Block}

/-- A row can be cut anywhere. -/
theorem append_iff : ∀ {row : List Block} {start : Nat},
    Tiles start (row ++ more) stop ↔ ∃ mid, Tiles start row mid ∧ Tiles mid more stop
  | [], start => by
    constructor
    · intro h
      exact ⟨start, rfl, h⟩
    · rintro ⟨_, rfl, h⟩
      exact h
  | c :: row, start => by
    simp only [List.cons_append, Tiles, append_iff]
    constructor
    · rintro ⟨ha, hp, hd, mid, h, hm⟩
      exact ⟨mid, ⟨ha, hp, hd, h⟩, hm⟩
    · rintro ⟨mid, ⟨ha, hp, hd, h⟩, hm⟩
      exact ⟨ha, hp, hd, mid, h, hm⟩

/-- A row does not run backwards. -/
theorem le : ∀ {row : List Block} {start : Nat}, Tiles start row stop → start ≤ stop
  | [], _, h => Nat.le_of_eq h
  | _ :: _, _, ⟨ha, _, _, h⟩ => by
    have := le h
    rw [Block.stop] at this
    omega

/-- Every tile lies inside the row, and is a positive multiple of eight bytes long. -/
theorem of_mem (h : Tiles start row stop) (hb : b ∈ row) :
    start ≤ b.addr ∧ b.stop ≤ stop ∧ 0 < b.size ∧ 8 ∣ b.size := by
  obtain ⟨pre, post, rfl⟩ := List.append_of_mem hb
  obtain ⟨mid, hpre, ha, hp, hd, hpost⟩ := append_iff.1 h
  exact ⟨ha ▸ hpre.le, hpost.le, hp, hd⟩

/-- Where a row starts at a multiple of eight, so does each of its tiles. -/
theorem dvd_addr : ∀ {row : List Block} {start : Nat}, Tiles start row stop → 8 ∣ start →
    ∀ b ∈ row, 8 ∣ b.addr
  | _ :: _, _, ⟨ha, _, hd, h⟩, h8, b, hb => by
    rcases List.mem_cons.1 hb with rfl | hb
    · exact ha ▸ h8
    · exact dvd_addr h (Nat.dvd_add (ha ▸ h8) hd) b hb

/-- **Tiles share no byte.** -/
theorem pairwise : ∀ {row : List Block} {start : Nat}, Tiles start row stop →
    row.Pairwise Block.Apart
  | [], _, _ => List.Pairwise.nil
  | _ :: _, _, ⟨_, _, _, h⟩ =>
    List.pairwise_cons.2 ⟨fun _ hb => Or.inl (h.of_mem hb).1, pairwise h⟩

/-- A tile may be cut in two, or taken whole. -/
theorem split {pre post : List Block} {size : Nat} (h : Tiles start (pre ++ b :: post) stop)
    (hpos : 0 < size) (h8 : 8 ∣ size) (hle : size ≤ b.size) :
    Tiles start (pre ++ (⟨b.addr, size⟩ :: Heap.remainder b size) ++ post) stop := by
  obtain ⟨mid, hpre, ha, hp, hd, hpost⟩ := append_iff.1 h
  rw [List.append_assoc]
  refine append_iff.2 ⟨mid, hpre, ha, hpos, h8, ?_⟩
  rcases Nat.lt_or_ge size b.size with hlt | hge
  · have hstop : Block.stop ⟨b.addr + size, b.size - size⟩ = b.stop := by
      simp only [Block.stop]
      omega
    rw [Heap.remainder, if_pos hlt]
    exact ⟨rfl, Nat.sub_pos_of_lt hlt, Nat.dvd_sub hd h8, hstop ▸ hpost⟩
  · have hstop : Block.stop ⟨b.addr, size⟩ = b.stop := by
      simp only [Block.stop]
      omega
    rw [Heap.remainder, if_neg (by omega)]
    exact hstop ▸ hpost

end Tiles

/-! ## The block that serves a request -/

/-- The least multiple of eight, and at least eight, that holds a request. -/
def roundedSize (requested : Nat) : Nat := (max requested 1 + 7) / 8 * 8

theorem dvd_roundedSize (n : Nat) : 8 ∣ roundedSize n := Nat.dvd_mul_left 8 _

theorem le_roundedSize (n : Nat) : n ≤ roundedSize n ∧ 8 ≤ roundedSize n := by
  rw [roundedSize]
  omega

namespace Heap

theorem blockSize?_eq_some {n size : Nat} (h : blockSize? n = some size) :
    size = roundedSize n ∧ size < UInt64.size := by
  rw [blockSize?] at h
  split at h
  · cases h
    exact ⟨rfl, ‹_›⟩
  · cases h

/-- Taking out the element at `i` leaves the others, in some order. -/
theorem cons_swapRemove_perm {α : Type} {xs : List α} {i : Nat} (h : i < xs.length) :
    (xs[i] :: swapRemove xs i).Perm xs := by
  obtain ⟨ys, last, rfl⟩ : ∃ ys last, xs = ys ++ [last] :=
    ⟨_, _, (List.dropLast_append_getLast (List.ne_nil_of_length_pos (by omega))).symm⟩
  rw [swapRemove, List.getLast?_concat]
  dsimp only
  rw [List.length_append, List.length_singleton] at h
  rcases Nat.lt_or_ge i ys.length with hlt | hge
  · rw [List.set_append_left _ _ hlt, List.dropLast_concat, List.getElem_append_left hlt]
    calc ys[i] :: ys.set i last
        |>.Perm (ys[i] :: last :: ys.eraseIdx i) := (List.set_perm_cons_eraseIdx hlt last).cons _
      _ |>.Perm (last :: ys[i] :: ys.eraseIdx i) := List.Perm.swap _ _ _
      _ |>.Perm (last :: ys) := (List.getElem_cons_eraseIdx_perm hlt).cons _
      _ |>.Perm (ys ++ [last]) := (List.perm_append_singleton last ys).symm
  · obtain rfl : i = ys.length := by omega
    rw [List.set_append_right _ _ (Nat.le_refl _), Nat.sub_self, List.set_cons_zero,
      List.dropLast_concat, List.getElem_concat_length rfl]
    exact (List.perm_append_singleton last ys).symm

/-- **A sound heap**: blocks in use and free regions tile memory, which stays within the
limit, and the limit is a word. -/
structure Sound (h : Heap) : Prop where
  /-- Put in a row, what is in use and what is free covers memory. -/
  tiled : ∃ row, row.Perm (h.live ++ h.free) ∧ Tiles heapBase row h.memory.size
  /-- Memory does not outgrow the limit. -/
  bounded : h.memory.size ≤ max heapBase h.limit
  /-- Addresses fit a word. -/
  word : h.limit < UInt64.size

namespace Sound

variable {h h' : Heap} {b c : Block}

/-- A heap without blocks is sound. -/
theorem withLimit (limit : UInt64) : (Heap.withLimit limit.toNat).Sound where
  tiled := ⟨[], List.Perm.refl _, (Memory.size_grow heapBase .empty).symm⟩
  bounded := by
    rw [Heap.withLimit, Memory.size_grow]
    exact Nat.le_max_left heapBase limit.toNat
  word := limit.toNat_lt

/-- What every block of a sound heap is like, in use or free. -/
theorem of_mem (hs : h.Sound) (hb : b ∈ h.live ++ h.free) :
    heapBase ≤ b.addr ∧ 8 ∣ b.addr ∧ b.stop ≤ h.memory.size ∧ 0 < b.size ∧ 8 ∣ b.size := by
  obtain ⟨row, hperm, htiles⟩ := hs.tiled
  have hrow : b ∈ row := hperm.symm.subset hb
  obtain ⟨hlo, hhi, hpos, hdvd⟩ := htiles.of_mem hrow
  exact ⟨hlo, htiles.dvd_addr (by decide) b hrow, hhi, hpos, hdvd⟩

/-- And what a block in use is like. -/
theorem of_mem_live (hs : h.Sound) (hb : b ∈ h.live) :
    heapBase ≤ b.addr ∧ 8 ∣ b.addr ∧ b.stop ≤ h.memory.size ∧ 0 < b.size ∧ 8 ∣ b.size :=
  hs.of_mem (List.mem_append_left _ hb)

/-- Memory ends before the words do. -/
theorem size_lt (hs : h.Sound) : h.memory.size < UInt64.size := by
  have hbound := hs.bounded
  have hword := hs.word
  have hbase : heapBase < UInt64.size := by decide
  omega

/-- **No two blocks of a sound heap share a byte.** -/
theorem pairwise (hs : h.Sound) : (h.live ++ h.free).Pairwise Block.Apart := by
  obtain ⟨row, hperm, htiles⟩ := hs.tiled
  exact hperm.pairwise htiles.pairwise fun hab => hab.symm

/-- Two blocks in use are the same or share no byte. -/
theorem eq_or_apart (hs : h.Sound) (hb : b ∈ h.live) (hc : c ∈ h.live) : b = c ∨ b.Apart c := by
  by_cases hbc : b = c
  · exact Or.inl hbc
  · exact Or.inr ((List.pairwise_append.1 hs.pairwise).1.forall hb hc hbc)

/-- Blocks in use are told apart by where they start. -/
theorem eq_of_addr_eq (hs : h.Sound) (hb : b ∈ h.live) (hc : c ∈ h.live)
    (heq : b.addr = c.addr) : b = c := by
  refine (hs.eq_or_apart hb hc).resolve_right fun hapart => ?_
  have hpb := (hs.of_mem_live hb).2.2.2.1
  have hpc := (hs.of_mem_live hc).2.2.2.1
  simp only [Block.Apart, Block.stop] at hapart
  omega

/-- No block in use is listed twice. -/
theorem nodup_live (hs : h.Sound) : h.live.Nodup := by
  refine (List.pairwise_append.1 hs.pairwise).1.imp_of_mem fun {b c} hb _ hapart hbc => ?_
  have hpos := (hs.of_mem_live hb).2.2.2.1
  subst hbc
  simp only [Block.Apart, Block.stop] at hapart
  omega

/-- Soundness does not read the bytes. -/
theorem of_memory (hs : h.Sound) {memory : ByteArray} (hsize : memory.size = h.memory.size) :
    ({ h with memory } : Heap).Sound where
  tiled := hsize ▸ hs.tiled
  bounded := hsize ▸ hs.bounded
  word := hs.word

/-- Taking a region from the free list leaves its remainder there. -/
theorem take (hs : h.Sound) {i size : Nat} (hi : i < h.free.length) (hpos : 0 < size)
    (h8 : 8 ∣ size) (hle : size ≤ h.free[i].size) :
    ({ h with
      live := ⟨h.free[i].addr, size⟩ :: h.live
      free := swapRemove h.free i ++ remainder h.free[i] size } : Heap).Sound where
  tiled := by
    obtain ⟨row, hperm, htiles⟩ := hs.tiled
    have hswap := cons_swapRemove_perm hi
    set region := h.free[i]
    have hmem : region ∈ row :=
      hperm.symm.subset (List.mem_append_right _ (List.getElem_mem hi))
    obtain ⟨pre, post, rfl⟩ := List.append_of_mem hmem
    have hrest : (pre ++ post).Perm (h.live ++ swapRemove h.free i) := by
      refine List.Perm.cons_inv (a := region) ?_
      calc (region :: (pre ++ post)).Perm (pre ++ region :: post) := List.perm_middle.symm
        _ |>.Perm (h.live ++ h.free) := hperm
        _ |>.Perm (h.live ++ region :: swapRemove h.free i) := hswap.symm.append_left _
        _ |>.Perm (region :: (h.live ++ swapRemove h.free i)) := List.perm_middle
    refine ⟨_, ?_, htiles.split hpos h8 hle⟩
    -- both rows are the new block, the remainder and the rest
    have hleft : (pre ++ (⟨region.addr, size⟩ :: remainder region size) ++ post).Perm
        (⟨region.addr, size⟩ :: (remainder region size ++ (pre ++ post))) := by
      rw [List.append_assoc, List.cons_append]
      refine List.perm_middle.trans (List.Perm.cons _ ?_)
      rw [← List.append_assoc, ← List.append_assoc]
      exact List.perm_append_comm.append_right _
    refine hleft.trans (List.Perm.cons _ ?_)
    calc (remainder region size ++ (pre ++ post)).Perm
          (remainder region size ++ (h.live ++ swapRemove h.free i)) := hrest.append_left _
      _ |>.Perm (h.live ++ swapRemove h.free i ++ remainder region size) :=
        List.perm_append_comm
      _ |>.Perm (h.live ++ (swapRemove h.free i ++ remainder region size)) := by
        rw [List.append_assoc]
  bounded := hs.bounded
  word := hs.word

/-- Fresh memory becomes a tile at the end. -/
theorem extend (hs : h.Sound) {size : Nat} (hpos : 0 < size) (h8 : 8 ∣ size)
    (hroom : h.memory.size + size ≤ h.limit) :
    ({ h with
      memory := Memory.grow size h.memory
      live := ⟨h.memory.size, size⟩ :: h.live } : Heap).Sound where
  tiled := by
    obtain ⟨row, hperm, htiles⟩ := hs.tiled
    refine ⟨row ++ [⟨h.memory.size, size⟩], ?_, ?_⟩
    · exact (List.perm_append_singleton _ row).trans (hperm.cons _)
    · refine Tiles.append_iff.2 ⟨h.memory.size, htiles, rfl, hpos, h8, ?_⟩
      rw [Memory.size_grow]
      rfl
  bounded := by
    rw [Memory.size_grow]
    exact Nat.le_trans hroom (Nat.le_max_right _ _)
  word := hs.word

end Sound

/-! ## What the calls that change the blocks do -/

/-- What taking a block for a request comes to. -/
structure Allocated (h : Heap) (requested : Nat) (addr : UInt64) (h' : Heap) : Prop where
  /-- The block is the latest in use. -/
  live : h'.live = ⟨addr.toNat, roundedSize requested⟩ :: h.live
  /-- Other bytes stay, perhaps with fresh memory behind them; the block is all zeros. -/
  contents : ∃ fresh, addr.toNat + roundedSize requested ≤ h.memory.size + fresh ∧
    Memory.contents h'.memory =
      splice (Memory.contents h.memory ++ List.replicate fresh 0) addr.toNat
        (List.replicate (roundedSize requested) 0)
  sound : h'.Sound

/-- Making room for a block takes a free region or extends memory. -/
theorem Sound.reserve {h h' : Heap} {size addr : Nat} (hs : h.Sound) (hpos : 0 < size)
    (h8 : 8 ∣ size) (hr : h.reserve size = .ok (addr, h')) :
    ({ h' with live := ⟨addr, size⟩ :: h'.live } : Heap).Sound ∧ h'.live = h.live ∧
      ∃ fresh, Memory.contents h'.memory = Memory.contents h.memory ++ List.replicate fresh 0 := by
  rw [Heap.reserve] at hr
  split at hr
  · rename_i i hfind
    obtain ⟨hi, hfits, -⟩ := List.findIdx?_eq_some_iff_getElem.1 hfind
    rw [List.getD_eq_getElem?_getD, List.getElem?_eq_getElem hi, Option.getD_some] at hr
    cases hr
    exact ⟨hs.take hi hpos h8 (of_decide_eq_true hfits), rfl, 0, (List.append_nil _).symm⟩
  · dsimp only at hr
    split at hr
    · cases hr
      exact ⟨hs.extend hpos h8 ‹_›, rfl, size, Memory.contents_grow _ _⟩
    · cases hr

/-- **A block that is taken was nobody's**, and the heap stays sound. -/
theorem Sound.alloc {h h' : Heap} {requested addr : UInt64} (hs : h.Sound)
    (ha : h.alloc requested = .ok (addr, h')) : Allocated h requested.toNat addr h' := by
  rw [Heap.alloc] at ha
  split at ha
  · cases ha
  rename_i size hsize
  obtain ⟨rfl, -⟩ := blockSize?_eq_some hsize
  have hpos : 0 < roundedSize requested.toNat := by
    have := (le_roundedSize requested.toNat).2
    omega
  split at ha
  · cases ha
  rename_i start h₁ hr
  obtain ⟨hsound, hlive, fresh, hcontents⟩ := hs.reserve hpos (dvd_roundedSize _) hr
  cases ha
  have hsize : h₁.memory.size = h.memory.size + fresh := by
    rw [← Memory.length_contents, hcontents, List.length_append, List.length_replicate,
      Memory.length_contents]
  have hstop : start + roundedSize requested.toNat ≤ h₁.memory.size :=
    (hsound.of_mem_live List.mem_cons_self).2.2.1
  have hword : (UInt64.ofNat start).toNat = start := by
    have := hsound.size_lt
    exact UInt64.toNat_ofNat_of_lt' (by dsimp only at this; omega)
  exact {
    live := by rw [hword, hlive]
    contents := ⟨fresh, by rw [hword, ← hsize]; exact hstop, by
      rw [hword, ← hcontents]
      exact Memory.contents_fill hstop⟩
    sound := hsound.of_memory (Memory.size_fill _ _ _ _) }

/-- **Giving a block back** moves it to the free regions, and a block that is not in use
cannot be given back. -/
theorem release_eq {h : Heap} {b : Block} {addr : UInt64} (hs : h.Sound) (hb : b ∈ h.live)
    (haddr : b.addr = addr.toNat) :
    h.release addr = .ok { h with live := h.live.erase b, free := h.free ++ [b] } := by
  have hfind : h.live.find? (·.addr == addr.toNat) = some b := by
    obtain ⟨c, hc⟩ : ∃ c, h.live.find? (·.addr == addr.toNat) = some c :=
      Option.isSome_iff_exists.1 (List.find?_isSome.2 ⟨b, hb, beq_iff_eq.2 haddr⟩)
    have hcaddr : c.addr = addr.toNat := by simpa using List.find?_some hc
    rw [hc, hs.eq_of_addr_eq (List.mem_of_find?_eq_some hc) hb (hcaddr.trans haddr.symm)]
  rw [release, hfind]

theorem Sound.release {h : Heap} {b : Block} (hs : h.Sound) (hb : b ∈ h.live) :
    ({ h with live := h.live.erase b, free := h.free ++ [b] } : Heap).Sound where
  tiled := by
    obtain ⟨row, hperm, htiles⟩ := hs.tiled
    refine ⟨row, hperm.trans ?_, htiles⟩
    calc (h.live ++ h.free).Perm (b :: h.live.erase b ++ h.free) :=
          (List.perm_cons_erase hb).append_right _
      _ |>.Perm (h.live.erase b ++ h.free ++ [b]) := (List.perm_append_singleton _ _).symm
      _ |>.Perm _ := by rw [List.append_assoc]
  bounded := hs.bounded
  word := hs.word

end Heap

end Kiln
