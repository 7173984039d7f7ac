import Kiln.Proofs.Memory.Tiling
import Mathlib.Algebra.BigOperators.Group.List.Basic
import Mathlib.Algebra.Ring.Nat
/-!
# The heap as separate arrays

To a program that stays inside the blocks it holds, the heap is a map from addresses to
byte arrays that have nothing to do with each other (`Arrays`). `Arrays.Step` says what
each request does to such a map, and knows nothing of memory, free regions or limits.
`Heap.arrays` is the map that a heap stands for; `step_arrays` matches one request, and
`trace_refines_arrays` every run.
-/

namespace Kiln

/-- What can be asked of a heap. -/
inductive Request where
  | alloc (size : UInt64)
  | free (addr : UInt64)
  | read (addr len : UInt64)
  | write (addr : UInt64) (bytes : List UInt8)
  | copy (dst src len : UInt64)
  | fill (addr len : UInt64) (byte : UInt8)
  deriving DecidableEq, Repr

/-- What a heap has to say to a request that it grants. -/
inductive Reply where
  | address (addr : UInt64)
  | bytes (bytes : List UInt8)
  | done
  deriving DecidableEq, Repr

/-- Each range that a request touches lies inside one of the blocks. -/
def Request.Within (blocks : List Block) : Request → Prop
  | .alloc _ | .free _ => True
  | .read addr len | .fill addr len _ => ∃ b ∈ blocks, b.Covers addr.toNat len.toNat
  | .write addr bytes => ∃ b ∈ blocks, b.Covers addr.toNat bytes.length
  | .copy dst src len =>
    (∃ b ∈ blocks, b.Covers dst.toNat len.toNat) ∧ ∃ b ∈ blocks, b.Covers src.toNat len.toNat

/-! ## What a map of arrays does -/

/-- Byte arrays, each under the address of its block, the latest first. -/
abbrev Arrays := List (Nat × List UInt8)

namespace Arrays

/-- The blocks that hold the arrays. -/
def blocks (s : Arrays) : List Block := s.map fun e => ⟨e.1, e.2.length⟩

/-- Changes the array at an address, and no other. -/
def update (s : Arrays) (addr : Nat) (change : List UInt8 → List UInt8) : Arrays :=
  s.map fun e => if e.1 = addr then (e.1, change e.2) else e

theorem mem_update {s : Arrays} {addr : Nat} {change : List UInt8 → List UInt8}
    {e : Nat × List UInt8} (he : e ∈ s) (hne : e.1 ≠ addr) : e ∈ s.update addr change :=
  List.mem_map.2 ⟨e, he, if_neg hne⟩

theorem mem_update_self {s : Arrays} {addr : Nat} {change : List UInt8 → List UInt8}
    {array : List UInt8} (he : (addr, array) ∈ s) : (addr, change array) ∈ s.update addr change :=
  List.mem_map.2 ⟨_, he, if_pos rfl⟩

/-- What a request does to a map of arrays, and what it is answered. -/
inductive Step (s : Arrays) : Request → Except Fault Reply → Arrays → Prop
  /-- A new array is all zeros, and its block shares no byte with those there are. -/
  | alloc {size addr : UInt64} :
      heapBase ≤ addr.toNat → 8 ∣ addr.toNat →
      (∀ b ∈ s.blocks, Block.Apart ⟨addr.toNat, roundedSize size.toNat⟩ b) →
      Step s (.alloc size) (.ok (.address addr))
        ((addr.toNat, List.replicate (roundedSize size.toNat) 0) :: s)
  /-- Giving back the address of an array removes that array. -/
  | free {addr : UInt64} {array : List UInt8} :
      (addr.toNat, array) ∈ s →
      Step s (.free addr) (.ok .done) (s.filter (·.1 ≠ addr.toNat))
  /-- An address that no array has cannot be given back. -/
  | freeAbsent {addr : UInt64} :
      (∀ e ∈ s, e.1 ≠ addr.toNat) → Step s (.free addr) (.error (.invalidFree addr)) s
  /-- A read shows a part of one array. -/
  | read {addr len : UInt64} {start : Nat} {array : List UInt8} :
      (start, array) ∈ s → Block.Covers ⟨start, array.length⟩ addr.toNat len.toNat →
      Step s (.read addr len) (.ok (.bytes (slice array (addr.toNat - start) len.toNat))) s
  /-- A write replaces a part of one array. -/
  | write {addr : UInt64} {bytes : List UInt8} {start : Nat} {array : List UInt8} :
      (start, array) ∈ s → Block.Covers ⟨start, array.length⟩ addr.toNat bytes.length →
      Step s (.write addr bytes) (.ok .done)
        (s.update start (splice · (addr.toNat - start) bytes))
  /-- A copy writes what a part of one array was before. -/
  | copy {dst src len : UInt64} {start from_ : Nat} {array source : List UInt8} :
      (start, array) ∈ s → Block.Covers ⟨start, array.length⟩ dst.toNat len.toNat →
      (from_, source) ∈ s → Block.Covers ⟨from_, source.length⟩ src.toNat len.toNat →
      Step s (.copy dst src len) (.ok .done)
        (s.update start
          (splice · (dst.toNat - start) (slice source (src.toNat - from_) len.toNat)))
  /-- A fill writes one byte over and over. -/
  | fill {addr len : UInt64} {byte : UInt8} {start : Nat} {array : List UInt8} :
      (start, array) ∈ s → Block.Covers ⟨start, array.length⟩ addr.toNat len.toNat →
      Step s (.fill addr len byte) (.ok .done)
        (s.update start (splice · (addr.toNat - start) (List.replicate len.toNat byte)))

/-- Requests one after the other, with their answers. -/
inductive Trace : Arrays → List (Request × Except Fault Reply) → Arrays → Prop
  | nil {s : Arrays} : Trace s [] s
  | cons {s t u : Arrays} {trace : List (Request × Except Fault Reply)} {r : Request}
      {answer : Except Fault Reply} :
      Step s r answer t → Trace t trace u → Trace s ((r, answer) :: trace) u

end Arrays

/-- Heaps are the same if their parts are. -/
instance : DecidableEq Heap := fun h k =>
  decidable_of_iff
    (h.memory.data = k.memory.data ∧ h.live = k.live ∧ h.free = k.free ∧ h.limit = k.limit) <| by
    obtain ⟨⟨data⟩, live, free, limit⟩ := h
    obtain ⟨⟨data'⟩, live', free', limit'⟩ := k
    simp

namespace Heap

/-- The answer to a request that may fail, and the heap after it. -/
def settle (h : Heap) : Except Fault Heap → Except Fault Reply × Heap
  | .ok h' => (.ok .done, h')
  | .error f => (.error f, h)

/-- Grants a request, or tells why not. -/
def perform (h : Heap) : Request → Except Exhaustion (Except Fault Reply × Heap)
  | .alloc size => (h.alloc size).map fun r => (.ok (.address r.1), r.2)
  | .free addr => .ok (h.settle (h.release addr))
  | .read addr len => .ok ((h.read addr len).map .bytes, h)
  | .write addr bytes => .ok (h.settle (h.write addr bytes))
  | .copy dst src len => .ok (h.settle (h.copy dst src len))
  | .fill addr len byte => .ok (h.settle (h.fill addr len byte))

/-- Requests granted one after the other, each of which stays inside the blocks in use at
that time, with their answers. -/
inductive Trace : Heap → List (Request × Except Fault Reply) → Heap → Prop
  | nil {h : Heap} : Trace h [] h
  | cons {h h' h'' : Heap} {trace : List (Request × Except Fault Reply)} {r : Request}
      {answer : Except Fault Reply} :
      r.Within h.live → h.perform r = .ok (answer, h') → Trace h' trace h'' →
      Trace h ((r, answer) :: trace) h''

/-- The arrays that the blocks in use hold. -/
def arrays (h : Heap) : Arrays :=
  h.live.map fun b => (b.addr, slice (Memory.contents h.memory) b.addr b.size)

variable {h : Heap} {b : Block} {addr len : Nat}

/-! ## What the arrays of a sound heap are -/

theorem blocks_arrays (hs : h.Sound) : h.arrays.blocks = h.live := by
  rw [Arrays.blocks, arrays, List.map_map]
  refine (List.map_congr_left fun b hb => ?_).trans (List.map_id _)
  have hstop := (hs.of_mem_live hb).2.2.1
  simp only [Function.comp_apply, id_eq]
  rw [length_slice (by rw [Memory.length_contents]; exact hstop)]

/-- The array of a block in use. -/
theorem mem_arrays (hb : b ∈ h.live) :
    (b.addr, slice (Memory.contents h.memory) b.addr b.size) ∈ h.arrays :=
  List.mem_map_of_mem hb

theorem length_array (hs : h.Sound) (hb : b ∈ h.live) :
    (slice (Memory.contents h.memory) b.addr b.size).length = b.size :=
  length_slice (by rw [Memory.length_contents]; exact (hs.of_mem_live hb).2.2.1)

theorem block_array (hs : h.Sound) (hb : b ∈ h.live) :
    (⟨b.addr, (slice (Memory.contents h.memory) b.addr b.size).length⟩ : Block) = b := by
  rw [length_array hs hb]

/-- A range inside a block in use lies inside memory. -/
theorem le_size_of_covers (hs : h.Sound) (hb : b ∈ h.live) (hcov : b.Covers addr len) :
    heapBase ≤ addr ∧ addr + len ≤ h.memory.size := by
  obtain ⟨hlo, -, hhi, -, -⟩ := hs.of_mem_live hb
  exact ⟨Nat.le_trans hlo hcov.1, Nat.le_trans hcov.2 hhi⟩

/-- So every access to it passes the check. -/
theorem check_of_covers (hs : h.Sound) {addr len : UInt64} (hb : b ∈ h.live)
    (hcov : b.Covers addr.toNat len.toNat) : h.check addr len = .ok () := by
  obtain ⟨hlo, hhi⟩ := le_size_of_covers hs hb hcov
  rw [check, contains, decide_eq_true hlo, decide_eq_true hhi]
  rfl

/-- **Writing inside one block changes the array of that block alone.** -/
theorem arrays_write (hs : h.Sound) (hb : b ∈ h.live) {part : List UInt8}
    (hcov : b.Covers addr part.length) :
    ({ h with memory := Memory.write part addr h.memory } : Heap).arrays =
      h.arrays.update b.addr (splice · (addr - b.addr) part) := by
  have hin := (le_size_of_covers hs hb hcov).2
  rw [arrays, arrays, Arrays.update, List.map_map]
  refine List.map_congr_left fun c hc => ?_
  have hcin := (hs.of_mem_live hc).2.2.1
  rw [Function.comp_apply, Memory.contents_write hin]
  dsimp only
  rcases hs.eq_or_apart hc hb with rfl | hapart
  · rw [if_pos rfl, slice_splice_inside hcov.1 hcov.2 (by rw [Memory.length_contents]; exact hcin)]
  · have hne : c.addr ≠ b.addr := fun heq => by
      obtain rfl := hs.eq_of_addr_eq hc hb heq
      have hpos := (hs.of_mem_live hc).2.2.2.1
      simp only [Block.Apart, Block.stop] at hapart
      omega
    rw [if_neg hne, slice_splice_beside (by rw [Memory.length_contents]; exact hin)]
    simp only [Block.Apart, Block.Covers, Block.stop] at hapart hcov
    omega

/-- Writing leaves the heap sound, wherever it writes. -/
theorem sound_write (hs : h.Sound) (part : List UInt8) (addr : Nat) :
    ({ h with memory := Memory.write part addr h.memory } : Heap).Sound :=
  hs.of_memory (Memory.size_write part addr h.memory)

/-- Giving a block back removes its array. -/
theorem arrays_release (hs : h.Sound) (hb : b ∈ h.live) :
    ({ h with live := h.live.erase b, free := h.free ++ [b] } : Heap).arrays =
      h.arrays.filter (·.1 ≠ b.addr) := by
  rw [arrays, arrays, hs.nodup_live.erase_eq_filter, List.filter_map]
  congr 1
  refine List.filter_congr fun c hc => ?_
  by_cases hcb : c = b
  · subst hcb
    simp
  · have haddr : c.addr ≠ b.addr := fun heq => hcb (hs.eq_of_addr_eq hc hb heq)
    rw [Function.comp_apply, bne_iff_ne.2 hcb, decide_eq_true haddr]

/-- A block that is taken adds an array of zeros. -/
theorem Allocated.arrays_eq {h' : Heap} {addr : UInt64} {n : Nat} (hs : h.Sound)
    (ha : Allocated h n addr h') :
    h'.arrays = (addr.toNat, List.replicate (roundedSize n) 0) :: h.arrays := by
  obtain ⟨fresh, hin, hcontents⟩ := ha.contents
  have hlen : (Memory.contents h.memory ++ List.replicate fresh 0).length
      = h.memory.size + fresh := by
    rw [List.length_append, Memory.length_contents, List.length_replicate]
  have hzeros : (List.replicate (roundedSize n) (0 : UInt8)).length = roundedSize n :=
    List.length_replicate
  rw [arrays, ha.live, List.map_cons, hcontents]
  congr 1
  · rw [slice_splice_self hzeros (by rw [hlen]; exact hin)]
  · refine List.map_congr_left fun c hc => ?_
    congr 1
    have hc' : c ∈ h'.live := ha.live ▸ List.mem_cons_of_mem _ hc
    have hapart : Block.Apart ⟨addr.toNat, roundedSize n⟩ c := by
      have hpair := (List.pairwise_append.1 ha.sound.pairwise).1
      rw [ha.live] at hpair
      exact (List.pairwise_cons.1 hpair).1 c hc
    have hstop := (hs.of_mem_live hc).2.2.1
    rw [slice_splice_beside (by rw [hzeros, hlen]; exact hin) (by
      rw [hzeros]
      simp only [Block.Apart, Block.stop] at hapart
      omega)]
    -- old blocks end before the fresh memory begins
    refine List.ext_getElem? fun i => ?_
    rw [getElem?_slice, getElem?_slice]
    split
    · rw [List.getElem?_append_left]
      rw [Memory.length_contents]
      simp only [Block.stop] at hstop
      omega
    · rfl

/-! ## Requests, one and many -/

theorem perform_read {addr len : UInt64} {bytes : List UInt8}
    (hread : h.read addr len = .ok bytes) :
    h.perform (.read addr len) = .ok (.ok (.bytes bytes), h) := by
  rw [perform, hread]
  rfl

/-- The arrays that a request spares which stays inside some blocks: those of all other blocks,
unless it gives them back. -/
def Spares (h : Heap) (blocks : List Block) (r : Request) (h' : Heap) : Prop :=
  ∀ e ∈ h.arrays, (∀ b ∈ blocks, b.addr ≠ e.1) → (∀ addr, r = .free addr → addr.toNat ≠ e.1) →
    e ∈ h'.arrays

/-- Writing inside one of the blocks spares the arrays of the others. -/
theorem spares_write (hs : h.Sound) {blocks : List Block} (hsub : blocks ⊆ h.live) (hb : b ∈ blocks)
    {part : List UInt8} (hcov : b.Covers addr part.length) (r : Request) :
    h.Spares blocks r { h with memory := Memory.write part addr h.memory } := by
  intro e he hother _
  rw [arrays_write hs (hsub hb) hcov]
  exact Arrays.mem_update he fun heq => hother b hb heq.symm

/-- **A request that stays inside blocks in use does to the heap's arrays what it does to a
map of arrays**, and spares all other arrays. It is granted unless it asks for a block that the
limit leaves no room for. -/
theorem step_arrays (hs : h.Sound) {blocks : List Block} (hsub : blocks ⊆ h.live) {r : Request}
    (hr : r.Within blocks) :
    (∃ size e, r = .alloc size ∧ h.perform r = .error e) ∨
      ∃ answer h', h.perform r = .ok (answer, h') ∧ h'.Sound ∧
        Arrays.Step h.arrays r answer h'.arrays ∧ h.Spares blocks r h' := by
  cases r with
  | alloc size =>
    rcases ha : h.alloc size with e | ⟨addr, h'⟩
    · exact Or.inl ⟨size, e, rfl, by rw [perform, ha]; rfl⟩
    · have hspec := hs.alloc ha
      refine Or.inr ⟨.ok (.address addr), h', by rw [perform, ha]; rfl, hspec.sound, ?_, ?_⟩
      · have hmem : (⟨addr.toNat, roundedSize size.toNat⟩ : Block) ∈ h'.live := by
          rw [hspec.live]
          exact List.mem_cons_self
        obtain ⟨hlo, h8, -⟩ := hspec.sound.of_mem_live hmem
        have hpair := (List.pairwise_append.1 hspec.sound.pairwise).1
        rw [hspec.live] at hpair
        rw [hspec.arrays_eq hs]
        exact .alloc hlo h8 (blocks_arrays hs ▸ (List.pairwise_cons.1 hpair).1)
      · intro e he _ _
        rw [hspec.arrays_eq hs]
        exact List.mem_cons_of_mem _ he
  | free addr =>
    right
    by_cases hlive : ∃ b ∈ h.live, b.addr = addr.toNat
    · obtain ⟨b, hb, haddr⟩ := hlive
      refine ⟨.ok .done, _, by rw [perform, release_eq hs hb haddr, settle], hs.release hb, ?_, ?_⟩
      · rw [arrays_release hs hb, haddr]
        exact .free (haddr ▸ mem_arrays hb)
      · intro e he _ hfree
        rw [arrays_release hs hb, List.mem_filter, decide_eq_true_eq, haddr]
        exact ⟨he, (hfree addr rfl).symm⟩
    · have hnone : h.live.find? (·.addr == addr.toNat) = none := by
        refine List.find?_eq_none.2 fun b hb => ?_
        rw [beq_iff_eq]
        exact fun haddr => hlive ⟨b, hb, haddr⟩
      refine ⟨.error (.invalidFree addr), h, by rw [perform, release, hnone, settle], hs,
        .freeAbsent fun e he => ?_, fun e he _ _ => he⟩
      obtain ⟨b, hb, rfl⟩ := List.mem_map.1 he
      exact fun haddr => hlive ⟨b, hb, haddr⟩
  | read addr len =>
    obtain ⟨b, hin, hcov⟩ := hr
    have hb := hsub hin
    have hstep := Arrays.Step.read (mem_arrays hb) ((block_array hs hb).symm ▸ hcov)
    have hoff : addr.toNat - b.addr + len.toNat ≤ b.size := by
      simp only [Block.Covers, Block.stop] at hcov
      omega
    rw [slice_slice hoff, Nat.add_sub_cancel' hcov.1] at hstep
    refine Or.inr ⟨_, h, perform_read ?_, hs, hstep, fun e he _ _ => he⟩
    rw [Heap.read, check_of_covers hs hb hcov, Memory.read_eq]
    rfl
  | write addr bytes =>
    obtain ⟨b, hin, hcov⟩ := hr
    have hb := hsub hin
    have hlen : (UInt64.ofNat bytes.length).toNat = bytes.length := by
      have hin := (le_size_of_covers hs hb hcov).2
      have hsize := hs.size_lt
      exact UInt64.toNat_ofNat_of_lt' (by omega)
    refine Or.inr ⟨.ok .done, _, ?_, sound_write hs _ _, ?_, spares_write hs hsub hin hcov _⟩
    · rw [perform, Heap.write, check_of_covers hs hb (hlen.symm ▸ hcov)]
      rfl
    · rw [arrays_write hs hb hcov]
      exact .write (mem_arrays hb) ((block_array hs hb).symm ▸ hcov)
  | copy dst src len =>
    obtain ⟨⟨b, hin, hcov⟩, c, hcin, hsrc⟩ := hr
    have hb := hsub hin
    have hc := hsub hcin
    have hlen : (Memory.read h.memory src.toNat len.toNat).length = len.toNat := by
      rw [Memory.read_eq]
      exact length_slice (by
        rw [Memory.length_contents]
        exact (le_size_of_covers hs hc hsrc).2)
    refine Or.inr ⟨.ok .done, _, ?_, sound_write hs _ _, ?_,
      spares_write hs hsub hin (hlen.symm ▸ hcov) _⟩
    · rw [perform, Heap.copy, check_of_covers hs hc hsrc, check_of_covers hs hb hcov]
      rfl
    · have hoff : src.toNat - c.addr + len.toNat ≤ c.size := by
        simp only [Block.Covers, Block.stop] at hsrc
        omega
      have hread : Memory.read h.memory src.toNat len.toNat =
          slice (slice (Memory.contents h.memory) c.addr c.size)
          (src.toNat - c.addr) len.toNat := by
        rw [slice_slice hoff, Nat.add_sub_cancel' hsrc.1, Memory.read_eq]
      rw [arrays_write hs hb (hlen.symm ▸ hcov), hread]
      exact .copy (mem_arrays hb) ((block_array hs hb).symm ▸ hcov) (mem_arrays hc)
        ((block_array hs hc).symm ▸ hsrc)
  | fill addr len byte =>
    obtain ⟨b, hin, hcov⟩ := hr
    have hb := hsub hin
    have hlen : (List.replicate len.toNat byte).length = len.toNat := List.length_replicate
    refine Or.inr ⟨.ok .done, _, ?_, sound_write hs _ _, ?_,
      spares_write hs hsub hin (hlen.symm ▸ hcov) _⟩
    · rw [perform, Heap.fill, check_of_covers hs hb hcov, Memory.fill_eq_write]
      rfl
    · rw [arrays_write hs hb (hlen.symm ▸ hcov)]
      exact .fill (mem_arrays hb) ((block_array hs hb).symm ▸ hcov)

theorem total_eq_sum : ∀ s : Arrays, Block.total s.blocks = (s.map (·.2.length)).sum
  | [] => rfl
  | e :: s => congrArg (e.2.length + ·) (total_eq_sum s)

/-- A run that stays inside the blocks in use keeps the heap sound, and is a run of maps of
arrays. -/
theorem Trace.arrays {h h' : Heap} {trace : List (Request × Except Fault Reply)}
    (htrace : Trace h trace h') : h.Sound → h'.Sound ∧ Arrays.Trace h.arrays trace h'.arrays := by
  induction htrace with
  | nil => exact fun hs => ⟨hs, .nil⟩
  | cons hr hperform _ ih =>
    intro hs
    rcases step_arrays hs (List.Subset.refl _) hr with
      ⟨size, e, -, hfail⟩ | ⟨answer, h₁, hok, hs₁, hstep, -⟩
    · rw [hfail] at hperform
      cases hperform
    · rw [hok] at hperform
      cases hperform
      obtain ⟨hs', hrun⟩ := ih hs₁
      exact ⟨hs', .cons hstep hrun⟩

/-- What a heap has in common with a map of arrays, now and at the next request. -/
structure Shows (h : Heap) (s : Arrays) : Prop where
  /-- The blocks in use are those of the arrays. -/
  live : h.live = s.blocks
  /-- So are their number -/
  liveBlocks : h.liveBlocks = s.length
  /-- and their size. -/
  liveBytes : h.liveBytes = (s.map (·.2.length)).sum
  /-- A request that stays inside them is granted, and answered as the map answers it, unless
  it asks for a block that the limit leaves no room for. -/
  next : ∀ r : Request, r.Within h.live →
    (∃ size e, r = .alloc size ∧ h.perform r = .error e) ∨
      ∃ answer h' s', h.perform r = .ok (answer, h') ∧ Arrays.Step s r answer s'

/-- **The heap is a map of separate arrays.** Whatever a run has asked for inside the blocks
it held, it was answered as by a map of arrays that was empty at first, and the heap shows
the arrays that this leaves. -/
theorem trace_refines_arrays (limit : UInt64) {h : Heap}
    {trace : List (Request × Except Fault Reply)}
    (htrace : Trace (.withLimit limit.toNat) trace h) :
    ∃ s, Arrays.Trace [] trace s ∧ h.Shows s := by
  obtain ⟨hs, hrun⟩ := htrace.arrays (Sound.withLimit limit)
  have hlive : h.live = h.arrays.blocks := (blocks_arrays hs).symm
  exact ⟨h.arrays, hrun, {
    live := hlive
    liveBlocks := (List.length_map _).symm
    liveBytes := by rw [liveBytes, hlive, total_eq_sum]
    next := fun r hr => (step_arrays hs (List.Subset.refl _) hr).imp_right
      fun ⟨answer, h', hok, _, hstep, _⟩ => ⟨answer, h', h'.arrays, hok, hstep⟩ }⟩

/-- A block that is written, copied onto itself, given back and taken again. -/
theorem trace_refines_arrays_recycled :
    let trace : List (Request × Except Fault Reply) :=
      [(.alloc 3, .ok (.address 16)), (.write 16 [1, 2, 3], .ok .done),
        (.copy 17 16 2, .ok .done), (.read 16 4, .ok (.bytes [1, 1, 2, 0])),
        (.free 16, .ok .done), (.free 16, .error (.invalidFree 16)),
        (.alloc 8, .ok (.address 16)), (.read 16 4, .ok (.bytes [0, 0, 0, 0]))]
    ∃ h, Trace (.withLimit (24 : UInt64).toNat) trace h ∧
      ∃ s, Arrays.Trace [] trace s ∧ h.Shows s := by
  intro trace
  have inside : ∃ b ∈ [(⟨16, 8⟩ : Block)], b.Covers 16 4 := ⟨⟨16, 8⟩, by decide, by decide⟩
  have inside₃ : ∃ b ∈ [(⟨16, 8⟩ : Block)], b.Covers 16 3 := ⟨⟨16, 8⟩, by decide, by decide⟩
  have inside₂ : ∃ b ∈ [(⟨16, 8⟩ : Block)], b.Covers 17 2 := ⟨⟨16, 8⟩, by decide, by decide⟩
  have inside₂' : ∃ b ∈ [(⟨16, 8⟩ : Block)], b.Covers 16 2 := ⟨⟨16, 8⟩, by decide, by decide⟩
  let h₁ : Heap := ⟨Memory.fill 0 8 16 (Memory.grow 8 (Memory.grow 16 .empty)), [⟨16, 8⟩], [], 24⟩
  let h₂ : Heap := { h₁ with memory := Memory.write [1, 2, 3] 16 h₁.memory }
  let h₃ : Heap := { h₂ with memory := Memory.write (Memory.read h₂.memory 16 2) 17 h₂.memory }
  let h₄ : Heap := { h₃ with live := [], free := [⟨16, 8⟩] }
  let h₅ : Heap := ⟨Memory.fill 0 8 16 h₄.memory, [⟨16, 8⟩], [], 24⟩
  have htrace : Trace (.withLimit (24 : UInt64).toNat) trace h₅ := by
    refine @Trace.cons _ h₁ _ _ _ _ trivial (by decide +kernel) ?_
    refine @Trace.cons _ h₂ _ _ _ _ inside₃ (by decide +kernel) ?_
    refine @Trace.cons _ h₃ _ _ _ _ ⟨inside₂, inside₂'⟩ (by decide +kernel) ?_
    refine @Trace.cons _ h₃ _ _ _ _ inside (by decide +kernel) ?_
    refine @Trace.cons _ h₄ _ _ _ _ trivial (by decide +kernel) ?_
    refine @Trace.cons _ h₄ _ _ _ _ trivial (by decide +kernel) ?_
    refine @Trace.cons _ h₅ _ _ _ _ trivial (by decide +kernel) ?_
    exact .cons inside (by decide +kernel) .nil
  exact ⟨h₅, htrace, trace_refines_arrays 24 htrace⟩

end Heap

end Kiln
