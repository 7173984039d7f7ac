import Kiln.Proofs.Memory.Arrays
/-!
# Access to one array

What each request does to a sound heap that holds an array at an address, one lemma for each:
a read shows a part of the array (`Sound.read_array`), a write replaces a part of it
(`Sound.write_array`), giving it back removes it (`Sound.release_array`), and a request for a
block adds one (`Sound.alloc_array`). `Request.leaves` tells which blocks a request leaves in use,
whatever is in them.
-/

namespace Kiln

namespace Heap

variable {h : Heap} {start : Nat} {array : List UInt8}

/-- An array is what the memory of its block shows. -/
theorem Sound.block_of_mem (hs : h.Sound) (hmem : (start, array) ∈ h.arrays) :
    ⟨start, array.length⟩ ∈ h.live ∧
      array = slice (Memory.contents h.memory) start array.length := by
  obtain ⟨b, hb, heq⟩ := List.mem_map.1 hmem
  injection heq with hstart harray
  subst hstart harray
  rw [length_array hs hb]
  exact ⟨hb, rfl⟩

variable {addr : UInt64}

/-- **A read inside an array shows a part of it.** -/
theorem Sound.read_array (hs : h.Sound) (hmem : (start, array) ∈ h.arrays) {len : UInt64}
    (hcov : Block.Covers ⟨start, array.length⟩ addr.toNat len.toNat) :
    h.read addr len = .ok (slice array (addr.toNat - start) len.toNat) := by
  obtain ⟨hlive, harray⟩ := hs.block_of_mem hmem
  have hoff : addr.toNat - start + len.toNat ≤ array.length := by
    simp only [Block.Covers, Block.stop] at hcov
    omega
  rw [Heap.read, check_of_covers hs hlive hcov, harray, slice_slice hoff,
    Nat.add_sub_cancel' hcov.1, Memory.read_eq]
  rfl

/-- **A write inside an array replaces a part of it**, and changes nothing else. -/
theorem Sound.write_array (hs : h.Sound) (hmem : (start, array) ∈ h.arrays) {bytes : List UInt8}
    (hcov : Block.Covers ⟨start, array.length⟩ addr.toNat bytes.length) :
    ∃ h', h.write addr bytes = .ok h' ∧ h'.Sound ∧ h'.live = h.live ∧
      h'.arrays = h.arrays.update start (splice · (addr.toNat - start) bytes) := by
  obtain ⟨hlive, -⟩ := hs.block_of_mem hmem
  have hlen : (UInt64.ofNat bytes.length).toNat = bytes.length := by
    have hin := (le_size_of_covers hs hlive hcov).2
    have hsize := hs.size_lt
    exact UInt64.toNat_ofNat_of_lt' (by omega)
  refine ⟨{ h with memory := Memory.write bytes addr.toNat h.memory }, ?_, sound_write hs _ _,
    rfl, arrays_write hs hlive hcov⟩
  rw [Heap.write, check_of_covers hs hlive (hlen.symm ▸ hcov)]
  rfl

/-- Taking a block off the list leaves those at other addresses. -/
theorem Sound.erase_live (hs : h.Sound) {b : Block} (hb : b ∈ h.live) :
    h.live.erase b = h.live.filter (·.addr ≠ b.addr) := by
  rw [hs.nodup_live.erase_eq_filter]
  refine List.filter_congr fun c hc => ?_
  by_cases hcb : c = b
  · subst hcb
    simp
  · have haddr : c.addr ≠ b.addr := fun heq => hcb (hs.eq_of_addr_eq hc hb heq)
    rw [bne_iff_ne.2 hcb, decide_eq_true haddr]

/-- **Giving an array back removes it**, and no other. -/
theorem Sound.release_array (hs : h.Sound) (hmem : (addr.toNat, array) ∈ h.arrays) :
    ∃ h', h.release addr = .ok h' ∧ h'.Sound ∧ h'.live = h.live.filter (·.addr ≠ addr.toNat) ∧
      h'.arrays = h.arrays.filter (·.1 ≠ addr.toNat) := by
  obtain ⟨hlive, -⟩ := hs.block_of_mem hmem
  exact ⟨_, release_eq hs hlive rfl, hs.release hlive, hs.erase_live hlive, arrays_release hs hlive⟩

/-- **A block that is asked for is a new array of zeros**, unless the limit leaves no room for
it. -/
theorem Sound.alloc_array (hs : h.Sound) (size : UInt64) :
    (∃ e, h.alloc size = .error e) ∨ ∃ addr h', h.alloc size = .ok (addr, h') ∧ h'.Sound ∧
      h'.live = ⟨addr.toNat, roundedSize size.toNat⟩ :: h.live ∧
      h'.arrays = (addr.toNat, List.replicate (roundedSize size.toNat) 0) :: h.arrays ∧
      ∀ e ∈ h.arrays, e.1 ≠ addr.toNat := by
  rcases ha : h.alloc size with e | ⟨addr, h'⟩
  · exact .inl ⟨e, rfl⟩
  · have hspec := hs.alloc ha
    have harrays := hspec.arrays_eq hs
    refine .inr ⟨addr, h', rfl, hspec.sound, hspec.live, harrays, fun e he heq => ?_⟩
    -- the block of an older array would be listed twice
    obtain ⟨b, hb, rfl⟩ := List.mem_map.1 he
    have hnodup := hspec.sound.nodup_live
    rw [hspec.live, List.nodup_cons] at hnodup
    refine hnodup.1 ?_
    have hnew : (⟨addr.toNat, roundedSize size.toNat⟩ : Block) ∈ h'.live :=
      hspec.live ▸ List.mem_cons_self
    have hold : b ∈ h'.live := hspec.live ▸ List.mem_cons_of_mem _ hb
    rw [← hspec.sound.eq_of_addr_eq hold hnew heq]
    exact hb

/-! ## Bytes outside of a block -/

/-- The byte at an address; there are zeros behind the end of memory. -/
def byte (h : Heap) (p : Nat) : UInt8 := (Memory.contents h.memory)[p]?.getD 0

/-- From one heap to the other, bytes outside of a block stay as they are, or are set to zero, as
happens to those of any block that is taken. -/
def Confines (h : Heap) (b : Block) (h' : Heap) : Prop :=
  ∀ p, (b.addr ≤ p ∧ p < b.stop) ∨ h'.byte p = h.byte p ∨ h'.byte p = 0

variable {b : Block} {h' : Heap}

theorem Confines.trans {h'' : Heap} (hc : h.Confines b h') (hc' : h'.Confines b h'') :
    h.Confines b h'' := by
  intro p
  rcases hc' p with hin | hsame | hzero
  · exact .inl hin
  · rw [hsame]
    exact hc p
  · exact .inr (.inr hzero)

theorem confines_of_memory (hmemory : h'.memory = h.memory) (b : Block) : h.Confines b h' :=
  fun p => .inr (.inl (by rw [byte, byte, hmemory]))

/-- Giving a block back changes no byte. -/
theorem confines_release (hr : h.release addr = .ok h') (b : Block) : h.Confines b h' := by
  rw [release] at hr
  split at hr
  · cases hr
  · cases hr
    exact confines_of_memory rfl b

/-- Taking a block changes no byte but to zero. -/
theorem Sound.confines_alloc (hs : h.Sound) {size : UInt64} (ha : h.alloc size = .ok (addr, h'))
    (b : Block) : h.Confines b h' := by
  obtain ⟨fresh, hin, hcontents⟩ := (hs.alloc ha).contents
  have hlen :
      (List.replicate (roundedSize size.toNat) (0 : UInt8)).length = roundedSize size.toNat :=
    List.length_replicate
  intro p
  right
  rw [byte, byte, hcontents, getElem?_splice (by
    rw [hlen, List.length_append, Memory.length_contents, List.length_replicate]
    exact hin)]
  split
  · rename_i hp
    rw [hlen] at hp
    right
    rw [List.getElem?_replicate_of_lt (by omega)]
    rfl
  · left
    rcases Nat.lt_or_ge p (Memory.contents h.memory).length with hlt | hge
    · rw [List.getElem?_append_left hlt]
    · -- fresh memory and what is behind it are zeros alike
      rw [List.getElem?_append_right hge, List.getElem?_eq_none hge, List.getElem?_replicate]
      split <;> rfl

/-- Writing inside a block changes no byte outside. -/
theorem Sound.confines_write (hs : h.Sound) (hb : b ∈ h.live) {bytes : List UInt8}
    (hcov : b.Covers addr.toNat bytes.length) (hw : h.write addr bytes = .ok h') :
    h.Confines b h' := by
  have hsize := le_size_of_covers hs hb hcov
  rw [Heap.write] at hw
  rcases hcheck : h.check addr (.ofNat bytes.length) with e | ⟨⟩
  · rw [hcheck] at hw
    cases hw
  · rw [hcheck] at hw
    cases hw
    intro p
    by_cases hp : b.addr ≤ p ∧ p < b.stop
    · exact .inl hp
    · refine .inr (.inl ?_)
      simp only [Block.Covers] at hcov
      rw [byte, byte, Memory.contents_write hsize.2, getElem?_splice (by
        rw [Memory.length_contents]
        exact hsize.2), if_neg (by omega)]

end Heap

/-! ## The blocks that are left -/

/-- The blocks that are left of some by a request that was answered. -/
def Request.leaves (blocks : List Block) : Request → Except Fault Reply → List Block
  | .alloc size, .ok (.address addr) => ⟨addr.toNat, roundedSize size.toNat⟩ :: blocks
  | .free addr, .ok _ => blocks.filter (·.addr ≠ addr.toNat)
  | _, _ => blocks

namespace Heap

variable {h h' : Heap}

/-- Changing memory leaves all blocks. -/
theorem live_settle {x : Except Fault Unit} {memory : ByteArray} {answer : Except Fault Reply}
    (hsettle : h.settle (x.map fun () => { h with memory }) = (answer, h')) : h'.live = h.live := by
  rcases x with f | ⟨⟩
  · cases hsettle
    rfl
  · cases hsettle
    rfl

/-- **The blocks in use are those that the requests leave.** -/
theorem live_perform (hs : h.Sound) {r : Request} {answer : Except Fault Reply}
    (hperform : h.perform r = .ok (answer, h')) : h'.live = r.leaves h.live answer := by
  cases r with
  | alloc size =>
    rcases ha : h.alloc size with e | ⟨addr, h''⟩
    · rw [perform, ha] at hperform
      cases hperform
    · rw [perform, ha] at hperform
      cases hperform
      exact (hs.alloc ha).live
  | free addr =>
    injection hperform with hsettle
    rw [release] at hsettle
    split at hsettle
    · cases hsettle
      rfl
    · rename_i b hfind
      cases hsettle
      have haddr : b.addr = addr.toNat := by simpa using List.find?_some hfind
      rw [Request.leaves, ← haddr]
      exact hs.erase_live (List.mem_of_find?_eq_some hfind)
  | read addr len =>
    cases hperform
    rfl
  | write addr bytes | fill addr len byte =>
    injection hperform with hsettle
    exact live_settle hsettle
  | copy dst src len =>
    injection hperform with hsettle
    rcases hsrc : h.check src len with f | ⟨⟩
    · rw [copy, hsrc] at hsettle
      cases hsettle
      rfl
    · rw [copy, hsrc] at hsettle
      exact live_settle (x := h.check dst len) hsettle

end Heap

end Kiln
