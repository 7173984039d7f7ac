import Kiln.Proofs.Lowering.Inversion
import Kiln.Proofs.Memory.Arrays
/-!
# Requests of every kind

A heap may be asked for anything: for bytes that no block has, for addresses that nobody gave out,
for blocks that there is no room for. Whatever it was asked for, blocks and free regions tile its
memory, and which of the next requests are granted can be told from them (`Heap.performAll_tidy`). A
request leads from one sound heap to another (`Heap.Sound.perform`), so all that has to be known of
the requests before is that they left the heap sound.
-/

namespace Kiln

/-- What is written is no longer than a word can tell. -/
def Request.Sized : Request → Prop
  | .write _ bytes => bytes.length < UInt64.size
  | _ => True

namespace Heap

/-- Grants requests one after the other, those that fail included. -/
def performAll (h : Heap) : List Request → Except Exhaustion Heap
  | [] => .ok h
  | r :: rs =>
    match h.perform r with
    | .error e => .error e
    | .ok (_, h') => performAll h' rs

/-- All the bytes of a range are in memory, and its end is an address. -/
def Holds (h : Heap) (start len : Nat) : Prop :=
  heapBase ≤ start ∧ start + len < UInt64.size ∧ start + len ≤ h.memory.size

/-- There is no block for a request: its rounded size is none that a word can tell, or there is
neither a free region that is large enough nor room for more memory. -/
def Exhausts (h : Heap) (size : UInt64) : Prop :=
  UInt64.size ≤ roundedSize size.toNat ∨
    (∀ b ∈ h.free, b.size < roundedSize size.toNat) ∧
    h.limit < h.memory.size + roundedSize size.toNat

/-- What a heap grants. -/
def Grants (h : Heap) : Request → Prop
  | .alloc size => ¬h.Exhausts size
  | .free addr => ∃ b ∈ h.live, b.addr = addr.toNat
  | .read addr len | .fill addr len _ => h.Holds addr.toNat len.toNat
  | .write addr bytes => h.Holds addr.toNat bytes.length
  | .copy dst src len => h.Holds src.toNat len.toNat ∧ h.Holds dst.toNat len.toNat

/-- **A tidy heap** under a limit: it lost no byte and gave none out twice, and it grants what it
can. -/
structure Tidy (h : Heap) (limit : UInt64) : Prop where
  /-- No two of the blocks and free regions share a byte. -/
  apart : (h.live ++ h.free).Pairwise Block.Apart
  /-- They start at multiples of eight, and are positive multiples of eight bytes long. -/
  aligned : ∀ b ∈ h.live ++ h.free, 8 ∣ b.addr ∧ 8 ∣ b.size ∧ 0 < b.size
  /-- Put in a row, they cover memory from its base to its end. -/
  tiled : ∃ row, row.Perm (h.live ++ h.free) ∧ Tiles heapBase row h.memory.size
  /-- The limit stays what it was, and memory within it. -/
  limited : h.limit = limit.toNat ∧ h.memory.size ≤ max heapBase limit.toNat
  /-- All that there is no way on from is a request for a block that there is none for. -/
  halts : ∀ r, (∃ e, h.perform r = .error e) ↔ ∃ size, r = .alloc size ∧ h.Exhausts size
  /-- A request goes well just if the heap grants it. -/
  granted : ∀ r : Request, r.Sized → ((∃ reply h', h.perform r = .ok (.ok reply, h')) ↔ h.Grants r)
  /-- A request that fails changes nothing. -/
  refused : ∀ r f h', h.perform r = .ok (.error f, h') → h' = h

variable {h h' : Heap}

/-! ## What a request leaves -/

theorem limit_of_reserve {size addr : Nat} (hr : h.reserve size = .ok (addr, h')) :
    h'.limit = h.limit := by
  rw [reserve] at hr
  split at hr
  · cases hr
    rfl
  · dsimp only at hr
    split at hr
    · cases hr
      rfl
    · cases hr

theorem limit_of_alloc {size addr : UInt64} (ha : h.alloc size = .ok (addr, h')) :
    h'.limit = h.limit := by
  rw [alloc] at ha
  split at ha
  · cases ha
  split at ha
  · cases ha
  · rename_i reserved hr
    cases ha
    exact (limit_of_reserve hr : reserved.limit = h.limit)

/-- What becomes of a heap: it is sound, under the limit that it had. -/
def Keeps (h h' : Heap) : Prop := h'.Sound ∧ h'.limit = h.limit

theorem Sound.keeps_settle (hs : h.Sound) {x : Except Fault Heap}
    (hx : ∀ k, x = .ok k → h.Keeps k) :
    h.Keeps (h.settle x).2 := by
  rcases x with f | k
  · exact ⟨hs, rfl⟩
  · exact hx k rfl

/-- Soundness asks nothing of the bytes that an access leaves. -/
theorem Sound.keeps_access (hs : h.Sound) {α : Type} {x : Except Fault α}
    {f : α → ByteArray} {k : Heap} (hsize : ∀ a, (f a).size = h.memory.size)
    (hx : x.map (fun a => { h with memory := f a }) = .ok k) :
    h.Keeps k := by
  obtain ⟨a, -, rfl⟩ := ok_of_map hx
  exact ⟨hs.of_memory (hsize a), rfl⟩

/-- **A request leaves a sound heap sound**, whatever it asks for, and the limit as it was. -/
theorem Sound.perform (hs : h.Sound) {r : Request} {answer : Except Fault Reply}
    (hr : h.perform r = .ok (answer, h')) : h.Keeps h' := by
  cases r with
  | alloc size =>
    obtain ⟨⟨addr, k⟩, ha, heq⟩ := ok_of_map hr
    cases heq
    exact ⟨(hs.alloc ha).sound, limit_of_alloc ha⟩
  | free addr =>
    obtain rfl := congrArg Prod.snd (Except.ok.inj hr)
    refine hs.keeps_settle fun k hk => ?_
    rw [Heap.release] at hk
    split at hk
    · cases hk
    · rename_i b hfind
      cases hk
      exact ⟨hs.release (List.mem_of_find?_eq_some hfind), rfl⟩
  | read addr len =>
    cases hr
    exact ⟨hs, rfl⟩
  | write addr bytes =>
    obtain rfl := congrArg Prod.snd (Except.ok.inj hr)
    exact hs.keeps_settle fun k hk => hs.keeps_access (fun _ => Memory.size_write _ _ _) hk
  | copy dst src len =>
    obtain rfl := congrArg Prod.snd (Except.ok.inj hr)
    refine hs.keeps_settle fun k hk => ?_
    obtain ⟨-, -, hk⟩ := ok_of_bind hk
    exact hs.keeps_access (fun _ => Memory.size_write _ _ _) hk
  | fill addr len byte =>
    obtain rfl := congrArg Prod.snd (Except.ok.inj hr)
    exact hs.keeps_settle fun k hk => hs.keeps_access (fun _ => Memory.size_fill _ _ _ _) hk

/-- And so do any number of them. -/
theorem Sound.performAll :
    ∀ {rs : List Request} {h : Heap}, h.Sound → h.performAll rs = .ok h' → h.Keeps h'
  | [], h, hs, hrun => by
    cases hrun
    exact ⟨hs, rfl⟩
  | r :: rs, h, hs, hrun => by
    rw [Heap.performAll] at hrun
    split at hrun
    · cases hrun
    · rename_i hr
      obtain ⟨hs', hlimit⟩ := hs.perform hr
      obtain ⟨hs'', hlimit'⟩ := hs'.performAll hrun
      exact ⟨hs'', hlimit'.trans hlimit⟩

/-! ## Which requests are granted -/

theorem check_of_holds {addr len : UInt64} (hin : h.Holds addr.toNat len.toNat) :
    h.check addr len = .ok () := by
  rw [check, contains, decide_eq_true hin.1, decide_eq_true hin.2.2]
  rfl

/-- What does not end at an address does not end in a sound memory either. -/
theorem Sound.holds_of_check (hs : h.Sound) {addr len : UInt64} (hc : h.check addr len = .ok ()) :
    h.Holds addr.toNat len.toNat := by
  rw [check] at hc
  split at hc
  · rename_i hin
    rw [contains, Bool.and_eq_true, decide_eq_true_eq, decide_eq_true_eq] at hin
    exact ⟨hin.1, Nat.lt_of_le_of_lt hin.2 hs.size_lt, hin.2⟩
  · cases hc

theorem Sound.check_iff (hs : h.Sound) {addr len : UInt64} :
    h.check addr len = .ok () ↔ h.Holds addr.toNat len.toNat :=
  ⟨hs.holds_of_check, check_of_holds⟩

/-- A request that may fail is granted if it does not. -/
theorem settle_granted {x : Except Fault Heap} :
    (∃ reply h', (.ok (h.settle x) : Except Exhaustion _) = .ok (.ok reply, h')) ↔
    ∃ k, x = .ok k := by
  rcases x with f | k
  · exact iff_of_false (by rintro ⟨_, _, ⟨⟩⟩) (by rintro ⟨_, ⟨⟩⟩)
  · exact iff_of_true ⟨.done, k, rfl⟩ ⟨k, rfl⟩

theorem settle_refused {x : Except Fault Heap} {f : Fault} (hx : h.settle x = (.error f, h')) :
    h' = h := by
  rcases x with e | k
  · cases hx
    rfl
  · cases hx

/-- All that an access needs is that its check is passed. -/
theorem map_ok_iff {α : Type} {x : Except Fault Unit} {f : Unit → α} :
    (∃ a, x.map f = .ok a) ↔ x = .ok () := by
  rcases x with e | ⟨⟩
  · exact iff_of_false (by rintro ⟨_, ⟨⟩⟩) (by rintro ⟨⟩)
  · exact iff_of_true ⟨f (), rfl⟩ rfl

theorem release_ok_iff {addr : UInt64} : (∃ k, h.release addr = .ok k) ↔
    ∃ b ∈ h.live, b.addr = addr.toNat := by
  rw [release]
  cases hfind : h.live.find? (·.addr == addr.toNat) with
  | none =>
    refine iff_of_false (by rintro ⟨_, ⟨⟩⟩) ?_
    rintro ⟨b, hb, haddr⟩
    exact List.find?_eq_none.1 hfind b hb (beq_iff_eq.2 haddr)
  | some b =>
    have haddr : b.addr = addr.toNat := by simpa using List.find?_some hfind
    exact iff_of_true ⟨_, rfl⟩ ⟨b, List.mem_of_find?_eq_some hfind, haddr⟩

/-- Room for a block is found in the free regions, or else behind them. -/
theorem reserve_error_iff {size : Nat} :
    (∃ e, h.reserve size = .error e) ↔ (∀ b ∈ h.free, b.size < size) ∧
    h.limit < h.memory.size + size := by
  rw [reserve]
  cases hfind : h.free.findIdx? (size ≤ ·.size) with
  | some i =>
    obtain ⟨hi, hfits, -⟩ := List.findIdx?_eq_some_iff_getElem.1 hfind
    have hle : size ≤ h.free[i].size := of_decide_eq_true hfits
    refine iff_of_false (by rintro ⟨_, ⟨⟩⟩) ?_
    rintro ⟨hsmall, -⟩
    exact Nat.not_lt.2 hle (hsmall _ (List.getElem_mem hi))
  | none =>
    -- no free region is large enough, so what is left to see is the limit
    have hsmall : ∀ b ∈ h.free, b.size < size := fun b hb =>
      Nat.lt_of_not_le (of_decide_eq_false (List.findIdx?_eq_none_iff.1 hfind b hb))
    dsimp only
    split
    · rename_i hroom
      refine iff_of_false (by rintro ⟨_, ⟨⟩⟩) ?_
      rintro ⟨-, hlt⟩
      exact Nat.not_le.2 hlt hroom
    · rename_i hroom
      exact iff_of_true ⟨_, rfl⟩ ⟨hsmall, Nat.lt_of_not_le hroom⟩

theorem alloc_error_iff {size : UInt64} : (∃ e, h.alloc size = .error e) ↔ h.Exhausts size := by
  rw [alloc, Exhausts, ← reserve_error_iff]
  cases hsize : blockSize? size.toNat with
  | none =>
    rw [blockSize?] at hsize
    split at hsize
    · cases hsize
    · rename_i hlarge
      exact iff_of_true ⟨_, rfl⟩ (.inl (Nat.le_of_not_lt hlarge))
  | some n =>
    obtain ⟨rfl, hlt⟩ := blockSize?_eq_some hsize
    dsimp only
    rcases h.reserve (roundedSize size.toNat) with e | ⟨addr, k⟩
    · exact iff_of_true ⟨e, rfl⟩ (.inr ⟨e, rfl⟩)
    · refine iff_of_false (by rintro ⟨_, ⟨⟩⟩) ?_
      rintro (hlarge | ⟨_, ⟨⟩⟩)
      exact Nat.not_lt.2 hlarge hlt

/-- A request that there is no way on from asked for a block. -/
theorem halts_iff {r : Request} :
    (∃ e, h.perform r = .error e) ↔ ∃ size, r = .alloc size ∧ h.Exhausts size := by
  cases r with
  | alloc size =>
    rw [perform]
    constructor
    · rintro ⟨e, he⟩
      rcases ha : h.alloc size with e' | a
      · exact ⟨size, rfl, alloc_error_iff.1 ⟨e', ha⟩⟩
      · rw [ha] at he
        cases he
    · rintro ⟨_, ⟨⟩, hex⟩
      obtain ⟨e, ha⟩ := alloc_error_iff.2 hex
      exact ⟨e, by rw [ha]; rfl⟩
  | _ => exact iff_of_false (by rintro ⟨_, ⟨⟩⟩) (by rintro ⟨_, ⟨⟩, _⟩)

/-- **A request goes well just if the heap grants it.** -/
theorem Sound.granted_iff (hs : h.Sound) {r : Request} (hr : r.Sized) :
    (∃ reply h', h.perform r = .ok (.ok reply, h')) ↔ h.Grants r := by
  cases r with
  | alloc size =>
    rw [Heap.perform, Grants, ← alloc_error_iff]
    rcases h.alloc size with e | ⟨addr, k⟩
    · exact iff_of_false (by rintro ⟨_, _, ⟨⟩⟩) fun hno => hno ⟨e, rfl⟩
    · exact iff_of_true ⟨.address addr, k, rfl⟩ (by rintro ⟨_, ⟨⟩⟩)
  | free addr => rw [Heap.perform, Grants, settle_granted, release_ok_iff]
  | read addr len =>
    rw [Heap.perform, Grants, ← hs.check_iff, Heap.read]
    rcases h.check addr len with f | ⟨⟩
    · exact iff_of_false (by rintro ⟨_, _, ⟨⟩⟩) (by rintro ⟨⟩)
    · exact iff_of_true ⟨_, _, rfl⟩ rfl
  | write addr bytes =>
    -- a longer text would be checked as one that is shorter by the words there are
    have hlength : (UInt64.ofNat bytes.length).toNat = bytes.length := UInt64.toNat_ofNat_of_lt' hr
    rw [Heap.perform, Grants, settle_granted, Heap.write, map_ok_iff, hs.check_iff, hlength]
  | copy dst src len =>
    rw [Heap.perform, Grants, settle_granted, ← hs.check_iff, ← hs.check_iff, Heap.copy]
    rcases h.check src len with f | ⟨⟩
    · exact iff_of_false (by rintro ⟨_, ⟨⟩⟩) (by rintro ⟨⟨⟩, _⟩)
    · exact map_ok_iff.trans (and_iff_right rfl).symm
  | fill addr len byte =>
    rw [Heap.perform, Grants, settle_granted, Heap.fill, map_ok_iff, hs.check_iff]

/-- A request that fails changes nothing. -/
theorem refused_eq {r : Request} {f : Fault} (hr : h.perform r = .ok (.error f, h')) : h' = h := by
  cases r with
  | alloc size =>
    obtain ⟨a, -, heq⟩ := ok_of_map hr
    cases heq
  | read addr len => exact (congrArg Prod.snd (Except.ok.inj hr)).symm
  | _ => exact settle_refused (Except.ok.inj hr)

/-- **Blocks and free regions tile memory whatever was asked of a heap**, requests that failed
included: none of its bytes is lost or has two owners, and it grants what it can. -/
theorem performAll_tidy (limit : UInt64) (rs : List Request)
    (hrun : performAll (.withLimit limit.toNat) rs = .ok h) : h.Tidy limit := by
  obtain ⟨hs, hlimit⟩ := (Sound.withLimit limit).performAll hrun
  have hlimit : h.limit = limit.toNat := hlimit
  exact {
    apart := hs.pairwise
    aligned := fun b hb =>
      have ⟨_, haddr, _, hpos, hsize⟩ := hs.of_mem hb
      ⟨haddr, hsize, hpos⟩
    tiled := hs.tiled
    limited := ⟨hlimit, hlimit ▸ hs.bounded⟩
    halts := fun _ => halts_iff
    granted := fun _ hr => hs.granted_iff hr
    refused := fun _ _ _ hr => refused_eq hr }

/-- A block is given back twice, and half of it taken again; address 4 is never in
memory, which ends at 40. -/
theorem performAll_tidy_recycled :
    let h : Heap := ⟨Memory.grow 40 .empty, [⟨16, 8⟩, ⟨32, 8⟩], [⟨24, 8⟩], 48⟩
    performAll (.withLimit (48 : UInt64).toNat)
        [.alloc 16, .alloc 1, .write 4 [1], .free 16, .free 16, .alloc 3, .fill 39 2 1] = .ok h ∧
      h.Tidy 48 := by
  intro h
  have hrun : performAll (.withLimit (48 : UInt64).toNat)
      [.alloc 16, .alloc 1, .write 4 [1], .free 16, .free 16, .alloc 3, .fill 39 2 1] = .ok h := by
    decide +kernel
  exact ⟨hrun, performAll_tidy 48 _ hrun⟩

end Heap

end Kiln
