import Kiln.Proofs.Container.Calls
import Kiln.Proofs.Machine.Memory
/-!
# What calls do to a block

A block in use holds the number of its owners behind the first, and the bytes of its payload
(`BlockAt`). Each call of a function of its wrapper, made in a library that has the module, does
what it should to the block whose handle it is given, and leaves all other arrays as they are.
Calls may always end for lack of room instead.
-/

namespace Kiln

open Blueprint Source

/-- A block of so many bytes lies at an address, with a number first and then the bytes of a
payload. -/
def BlockAt (h : Heap) (room : Nat) (addr : UInt64) (count : Int64) (content : List UInt8) : Prop :=
  ∃ array, (addr.toNat, array) ∈ h.arrays ∧ array.length = room ∧
    slice array 0 8 = wordBytes count.toUInt64 ∧ slice array 8 content.length = content

/-- All arrays are still there, except what lies at an address. -/
def Heap.KeepsBut (h : Heap) (addr : UInt64) (h' : Heap) : Prop :=
  ∀ e ∈ h.arrays, e.1 ≠ addr.toNat → e ∈ h'.arrays

namespace BlockAt

variable {s : Store} {room : Nat} {addr : UInt64} {count : Int64} {content : List UInt8}
  {Γ : Layouts} {t : Ty}

/-- Addresses inside a block do not wrap. -/
theorem toNat_add (hs : s.heap.Sound) (hb : BlockAt s.heap room addr count content) {n : UInt64}
    (hn : n.toNat ≤ room) : (addr + n).toNat = addr.toNat + n.toNat := by
  obtain ⟨array, hmem, hlength, -⟩ := hb
  have hstop := (hs.of_mem_live (hs.block_of_mem hmem).1).2.2.1
  have hsize := hs.size_lt
  have hword : UInt64.size = 2 ^ 64 := rfl
  simp only [Block.stop] at hstop
  rw [UInt64.toNat_add, Nat.mod_eq_of_lt (by omega)]

/-- The number is read off the block. -/
theorem read_count (hs : s.heap.Sound) (hb : BlockAt s.heap room addr count content)
    (hroom : 8 ≤ room) : readAt Γ .i64 (.ptr addr t) s = .ok (.int count) s := by
  obtain ⟨array, hmem, hlength, hcount, -⟩ := hb
  have hsize : (Ty.size Γ .i64).toNat = 8 := rfl
  refine readAt_ok hs hmem ⟨Nat.le_refl _, ?_⟩ ?_
  · simp only [Block.stop]
    omega
  · rw [Nat.sub_self, hsize, hcount, Value.decode]
    have hdecode : Value.decodeWithin Γ Γ.count .i64 (wordBytes count.toUInt64) =
        .ok (.int (wordOfBytes (wordBytes count.toUInt64)).toInt64) := by
      cases Γ.count <;> rfl
    rw [hdecode, wordOfBytes_wordBytes]
    rfl

/-- Another number is written into the block. -/
theorem write_count (hs : s.heap.Sound) (hb : BlockAt s.heap room addr count content)
    (hroom : 8 + content.length ≤ room) (n : Int64) :
    ∃ h', writeAt Γ .i64 (.ptr addr t) (.int n) s = .ok .unit { s with heap := h' } ∧ h'.Sound ∧
      h'.live = s.heap.live ∧ s.heap.KeepsBut addr h' ∧ BlockAt h' room addr n content := by
  obtain ⟨array, hmem, hlength, -, hcontent⟩ := hb
  have hbytes : (wordBytes n.toUInt64).length = 8 := length_wordBytes _
  have hcovers : Block.Covers ⟨addr.toNat, array.length⟩ addr.toNat (wordBytes n.toUInt64).length :=
    ⟨Nat.le_refl _, by simp only [Block.stop, hbytes]; omega⟩
  obtain ⟨h', hwrite, hs', hlive, harrays⟩ :
    ∃ h', writeAt Γ .i64 (.ptr addr t) (.int n) s = _ ∧ _ :=
    writeAt_ok hs hmem rfl hcovers
  refine ⟨h', hwrite, hs', hlive, fun e he hne => ?_, splice array 0 (wordBytes n.toUInt64), ?_, ?_,
    ?_, ?_⟩
  · rw [harrays]
    exact Arrays.mem_update he hne
  · rw [harrays, Nat.sub_self]
    exact Arrays.mem_update_self hmem
  · rw [length_splice (by omega), hlength]
  · exact slice_splice_self hbytes (by omega)
  · rw [slice_splice_beside (by omega) (by omega), hcontent]

/-- The block is one of those in use. -/
theorem mem_live (hs : s.heap.Sound) (hb : BlockAt s.heap room addr count content) :
    ⟨addr.toNat, room⟩ ∈ s.heap.live := by
  obtain ⟨array, hmem, rfl, -⟩ := hb
  exact (hs.block_of_mem hmem).1

/-- Where a place behind the number lies. -/
theorem toNat_place (hs : s.heap.Sound) (hb : BlockAt s.heap room addr count content) {place : Nat}
    (hplace : 8 + place ≤ room) : (addr + 8 + .ofNat place).toNat = addr.toNat + 8 + place := by
  have hword : UInt64.size = 2 ^ 64 := rfl
  have height : (8 : UInt64).toNat = 8 := rfl
  have hroom : room < UInt64.size := by
    have hstop := (hs.of_mem_live (hb.mem_live hs)).2.2.1
    have hsize := hs.size_lt
    simp only [Block.stop] at hstop
    omega
  have hsum : (8 + UInt64.ofNat place).toNat = 8 + place := by
    rw [UInt64.toNat_add, height, UInt64.toNat_ofNat_of_lt' (by omega), Nat.mod_eq_of_lt (by omega)]
  have hadd := hb.toNat_add hs (n := 8 + .ofNat place) (by omega)
  rw [← UInt64.add_assoc, hsum] at hadd
  omega

/-- A part of what lies behind the number is read. -/
theorem read (hs : s.heap.Sound) (hb : BlockAt s.heap room addr count content)
    (hroom : 8 + content.length ≤ room) {place : Nat} {len : UInt64}
    (hin : place + len.toNat ≤ content.length) :
    s.heap.read (addr + 8 + .ofNat place) len = .ok (slice content place len.toNat) := by
  have hadd := hb.toNat_place hs (by omega : 8 + place ≤ room)
  obtain ⟨array, hmem, hlength, -, hcontent⟩ := hb
  have hcov :
      Block.Covers ⟨addr.toNat, array.length⟩ (addr + 8 + .ofNat place).toNat len.toNat := by
    simp only [Block.Covers, Block.stop, hadd]
    omega
  rw [hs.read_array hmem hcov, hadd, Nat.add_assoc, Nat.add_sub_cancel_left,
    ← slice_slice hin, hcontent]

/-- A value is read off a part of what lies behind the number. -/
theorem read_part (hs : s.heap.Sound) (hb : BlockAt s.heap room addr count content) {v : Value}
    {target : Ty} (hroom : 8 + content.length ≤ room) {place : Nat}
    (hin : place + (t.size Γ).toNat ≤ content.length)
    (hdecode : Value.decode Γ t (slice content place (t.size Γ).toNat) = .ok v) :
    readAt Γ t (.ptr (addr + 8 + .ofNat place) target) s = .ok v s :=
  readAt_of_read (hb.read hs hroom hin) hdecode

/-- The payload is read off the block. -/
theorem read_payload (hs : s.heap.Sound) (hb : BlockAt s.heap room addr count content) {v : Value}
    {target : Ty} (hroom : 8 + content.length ≤ room) (hsize : (t.size Γ).toNat = content.length)
    (hdecode : Value.decode Γ t content = .ok v) :
    readAt Γ t (.ptr (addr + 8) target) s = .ok v s := by
  have hall : slice content 0 (t.size Γ).toNat = content := by
    rw [hsize, slice, List.drop_zero, List.take_of_length_le (Nat.le_refl _)]
  have hread : readAt Γ t (.ptr (addr + 8 + .ofNat 0) target) s = .ok v s :=
    hb.read_part hs hroom (by omega) (by rw [hall, hdecode])
  rwa [show addr + 8 + UInt64.ofNat 0 = addr + 8 from UInt64.add_zero _] at hread

/-- Bytes are written into the payload, at some place of it. -/
theorem write_payload (hs : s.heap.Sound) (hb : BlockAt s.heap room addr count content)
    (hroom : 8 + content.length ≤ room) {offset : Nat} {bytes : List UInt8}
    (hin : offset + bytes.length ≤ content.length) :
    ∃ h', s.heap.write (addr + 8 + .ofNat offset) bytes = .ok h' ∧ h'.Sound ∧
      h'.live = s.heap.live ∧ s.heap.KeepsBut addr h' ∧
      BlockAt h' room addr count (splice content offset bytes) := by
  have hadd := hb.toNat_place hs (by omega : 8 + offset ≤ room)
  obtain ⟨array, hmem, hlength, hcount, hcontent⟩ := hb
  have hcovers : Block.Covers ⟨addr.toNat, array.length⟩ (addr + 8 + .ofNat offset).toNat
      bytes.length := by
    simp only [Block.Covers, Block.stop, hadd]
    omega
  obtain ⟨h', hwrite, hs', hlive, harrays⟩ := hs.write_array hmem hcovers
  rw [hadd, Nat.add_assoc, Nat.add_sub_cancel_left] at harrays
  have hplace : 8 + offset + bytes.length ≤ array.length := by omega
  refine ⟨h', hwrite, hs', hlive,
    fun e he hne => ?_, splice array (8 + offset) bytes, ?_, ?_, ?_, ?_⟩
  · rw [harrays]
    exact Arrays.mem_update he hne
  · rw [harrays]
    exact Arrays.mem_update_self hmem
  · rw [length_splice hplace, hlength]
  · rw [slice_splice_beside hplace (by omega), hcount]
  · rw [length_splice hin, slice_splice_inside (by omega) (by omega) (by omega), hcontent,
      Nat.add_sub_cancel_left]

/-- A block is given back. -/
theorem release (hs : s.heap.Sound) (hb : BlockAt s.heap room addr count content) :
    ∃ h', Run.updateHeap (·.release addr) s = .ok () { s with heap := h' } ∧ h'.Sound ∧
      h'.live = s.heap.live.filter (·.addr ≠ addr.toNat) ∧ s.heap.KeepsBut addr h' := by
  obtain ⟨array, hmem, -, -, -⟩ := hb
  obtain ⟨h', hrelease, hs', hlive, harrays⟩ := release_ok hs hmem
  refine ⟨h', hrelease, hs', hlive, fun e he hne => ?_⟩
  rw [harrays, List.mem_filter, decide_eq_true_eq]
  exact ⟨he, hne⟩

end BlockAt

/-- A size below half of what words can hold is asked for as it is. -/
theorem requestedSize_toInt64 {n : UInt64} (h : n.toNat < 2 ^ 63) :
    requestedSize n.toInt64 = n := by
  have hvalue : n.toInt64.toInt = n.toNat := by
    rw [← UInt64.ofNat_toNat (x := n), UInt64.toInt64_ofNat',
      Int64.toInt_ofNat_of_lt (by simpa using h)]
    simp
  have hpos : ¬n.toInt64 < 0 := by
    rw [Int64.lt_iff_toInt_lt, hvalue]
    simp
  rw [requestedSize, if_neg hpos]
  rfl

theorem slice_replicate {b : UInt8} {n start size : Nat} (h : start + size ≤ n) :
    slice (List.replicate n b) start size = List.replicate size b := by
  rw [slice, List.drop_replicate, List.take_replicate]
  congr 1
  omega

/-- A new block is all zeros: nobody else owns it, and its payload is zeros. -/
theorem BlockAt.zeros {h : Heap} {room len : Nat} {addr : UInt64}
    (hmem : (addr.toNat, List.replicate room 0) ∈ h.arrays) (hroom : 8 + len ≤ room) :
    BlockAt h room addr 0 (List.replicate len 0) := by
  refine ⟨_, hmem, List.length_replicate, ?_, ?_⟩
  · rw [slice_replicate (by omega)]
    decide
  · rw [List.length_replicate, slice_replicate hroom]

namespace Wraps

variable {lib : Library} {name : String} {inner payload : Tree} {m : Module}
  (h : Wraps lib name inner payload m)

/-- How many bytes the heap keeps for a block. -/
def room (lib : Library) (name : String) (inner payload : Tree) (m : Module) : Nat :=
  roundedSize (blockSize lib name inner payload m).toNat

include h

theorem payload_le_room :
    8 + (payloadSize lib name inner payload m).toNat ≤ room lib name inner payload m :=
  Nat.le_trans h.blockSize_bounds.1 (le_roundedSize _).1

section Calls

variable {later : Library} (hlater : later.find? lib.nextId = some m) {s : Store}
  (hs : s.heap.Sound) (depth : Nat) {addr : UInt64} {t : Ty} {size : Nat} {count : Int64}
  {content : List UInt8}

include hlater hs

/-- **Counting tells one more than the number in the block.** -/
theorem count_ok (hb : BlockAt s.heap size addr count content) (hroom : 8 ≤ size) :
    (m.call later depth (name ++ "_count") [handleAt lib name addr t]).OutOfRoom s ∨
      m.call later depth (name ++ "_count") [handleAt lib name addr t] s =
        .ok (.int (count + 1)) s := by
  have hfollows := h.call_follows hlater (f := countFun name (.struct (selfRef lib name)))
    (by simp [functions]) (Nat.lt_succ_self depth) [handleAt lib name addr t]
  rw [h.run_count] at hfollows
  refine hfollows.ok_or ?_
  rw [Run.bind_ok (hb.read_count hs (by omega))]
  rfl

omit hs in
/-- **Dereferencing points at the eighth byte.** -/
theorem deref_ok :
    (m.call later depth (name ++ "_deref") [handleAt lib name addr t]).OutOfRoom s ∨
      m.call later depth (name ++ "_deref") [handleAt lib name addr t] s =
        .ok (.ptr (addr + 8) ((scenery lib name inner payload).typeOf payload)) s := by
  have hfollows := h.call_follows hlater
    (f := derefFun name (.struct (selfRef lib name))
      ((scenery lib name inner payload).typeOf payload))
    (by simp [functions]) (Nat.lt_succ_self depth) [handleAt lib name addr t]
  rw [h.run_deref] at hfollows
  exact hfollows.ok_or rfl

/-- **Duplicating adds one to the number in the block.** -/
theorem duplicate_ok (hb : BlockAt s.heap size addr count content)
    (hroom : 8 + content.length ≤ size) :
    (m.call later depth (name ++ "_duplicate") [handleAt lib name addr t]).OutOfRoom s ∨
      ∃ h', m.call later depth (name ++ "_duplicate") [handleAt lib name addr t] s =
          .ok (handleAt lib name addr t) { s with heap := h' } ∧ h'.Sound ∧ h'.live = s.heap.live ∧
        s.heap.KeepsBut addr h' ∧ BlockAt h' size addr (count + 1) content := by
  have hfollows := h.call_follows hlater (f := duplicateFun name (.struct (selfRef lib name)))
    (by simp [functions]) (Nat.lt_succ_self depth) [handleAt lib name addr t]
  obtain ⟨h', hwrite, hrest⟩ := hb.write_count (Γ := later.layouts) (t := .i64) hs (by omega)
    (count + 1)
  rw [h.run_duplicate] at hfollows
  refine (hfollows.ok_or ?_).imp_right fun hcall => ⟨h', hcall, hrest⟩
  rw [Run.bind_ok (hb.read_count hs (by omega))]
  exact Run.bind_ok hwrite

variable (hbase : later.find? ⟨0⟩ = some Module.base)

include hbase

/-- **Releasing takes one off the number in the block**, -/
theorem release_ok (hb : BlockAt s.heap size addr count content)
    (hroom : 8 + content.length ≤ size) (hcount : ¬count - 1 < 0) :
    (m.call later depth (name ++ "_release") [handleAt lib name addr t]).OutOfRoom s ∨
      ∃ h', m.call later depth (name ++ "_release") [handleAt lib name addr t] s =
          .ok .unit { s with heap := h' } ∧ h'.Sound ∧ h'.live = s.heap.live ∧
        s.heap.KeepsBut addr h' ∧ BlockAt h' size addr (count - 1) content := by
  have hfollows := h.call_follows hlater (f := releaseFun name (.struct (selfRef lib name)))
    (by simp [functions]) (by omega : depth < depth + 2) [handleAt lib name addr t]
  obtain ⟨h', hwrite, hrest⟩ := hb.write_count (Γ := later.layouts) (t := .i64) hs (by omega)
    (count - 1)
  rw [h.run_release hbase depth] at hfollows
  refine (hfollows.ok_or ?_).imp_right fun hcall => ⟨h', hcall, hrest⟩
  rw [Run.bind_ok (hb.read_count hs (by omega))]
  have hover : BinaryOp.lt.apply (.int (count - 1)) (.int 0) = .ok (.bool false) := by
    show Except.ok (Value.bool (decide (count - 1 < 0))) = _
    rw [decide_eq_false hcount]
  have hsub : BinaryOp.sub.apply (.int count) (.int 1) = .ok (.int (count - 1)) := rfl
  simp only [hsub, hover, Value.asBool, lift_ok, pure_bind, Bool.false_eq_true, if_false]
  exact hwrite

/-- or gives the block back if the number was zero. -/
theorem release_last (hb : BlockAt s.heap size addr count content) (hroom : 8 ≤ size)
    (hcount : count - 1 < 0) :
    (m.call later depth (name ++ "_release") [handleAt lib name addr t]).OutOfRoom s ∨
      ∃ h', m.call later depth (name ++ "_release") [handleAt lib name addr t] s =
          .ok .unit { s with heap := h' } ∧ h'.Sound ∧
        h'.live = s.heap.live.filter (·.addr ≠ addr.toNat) ∧
        s.heap.KeepsBut addr h' := by
  have hfollows := h.call_follows hlater (f := releaseFun name (.struct (selfRef lib name)))
    (by simp [functions]) (by omega : depth < depth + 2) [handleAt lib name addr t]
  obtain ⟨h', hrelease, hrest⟩ := hb.release hs
  rw [h.run_release hbase depth] at hfollows
  refine (hfollows.ok_or ?_).imp_right fun hcall => ⟨h', hcall, hrest⟩
  rw [Run.bind_ok (hb.read_count hs (by omega))]
  have hover : BinaryOp.lt.apply (.int (count - 1)) (.int 0) = .ok (.bool true) := by
    show Except.ok (Value.bool (decide (count - 1 < 0))) = _
    rw [decide_eq_true hcount]
  have hsub : BinaryOp.sub.apply (.int count) (.int 1) = .ok (.int (count - 1)) := rfl
  simp only [hsub, hover, Value.asBool, lift_ok, pure_bind, if_true]
  exact Run.bind_ok hrelease

/-- **A new block has one owner and the value that was passed**, as the payload stores it. -/
theorem new_ok {v : Value}
    (hv : v.Conforms later.layouts ((scenery lib name inner payload).typeOf payload)) :
    (m.call later depth (name ++ "_new") [v]).OutOfRoom s ∨
      ∃ addr h' content, m.call later depth (name ++ "_new") [v] s =
          .ok (handleAt lib name addr (.struct (blockRef lib name))) { s with heap := h' } ∧
        h'.Sound ∧ h'.live = ⟨addr.toNat, room lib name inner payload m⟩ :: s.heap.live ∧
        s.heap.KeepsBut addr h' ∧ (∀ e ∈ s.heap.arrays, e.1 ≠ addr.toNat) ∧
        BlockAt h' (room lib name inner payload m) addr 0 content ∧
        content.length = (payloadSize lib name inner payload m).toNat ∧
        Value.decode later.layouts ((scenery lib name inner payload).typeOf payload) content =
          .ok (v.stored later.layouts ((scenery lib name inner payload).typeOf payload)) := by
  obtain ⟨hfits, -⟩ := h.fits_payload hlater
  have hroom := h.payload_le_room
  have hsize := h.payloadSize_eq hlater
  have hfollows := h.call_follows hlater
    (f := newFun name (.struct (selfRef lib name))
      ((scenery lib name inner payload).typeOf payload))
    (by simp [functions]) (by omega : depth < depth + 2) [v]
  rw [h.run_new hbase depth v, requestedSize_toInt64 h.blockSize_bounds.2] at hfollows
  rcases allocate_ok hs (blockSize lib name inner payload m) with
    hfull | ⟨addr, h₁, halloc, hs₁, hlive₁, harrays₁, hfresh⟩
  · exact .inl (hfollows.outOfRoom hfull.bind)
  · obtain ⟨bytes, hencode, hlength, hdecode⟩ := hv.encode (hfits.mono (h.two_le_count hlater))
    rw [hsize] at hlength
    have hzeros : BlockAt h₁ (room lib name inner payload m) addr 0
        (List.replicate (payloadSize lib name inner payload m).toNat 0) :=
      .zeros (harrays₁ ▸ List.mem_cons_self) hroom
    obtain ⟨h₂, hcount, hs₂, hlive₂, hkeeps₂, hb₂⟩ := hzeros.write_count (Γ := later.layouts)
      (s := { s with heap := h₁ }) (t := .i64) hs₁ (by rw [List.length_replicate]; exact hroom) 0
    have hin : 0 + bytes.length ≤
        (List.replicate (payloadSize lib name inner payload m).toNat (0 : UInt8)).length := by
      rw [List.length_replicate]
      omega
    obtain ⟨h₃, hwrite, hs₃, hlive₃, hkeeps₃, hb₃⟩ := hb₂.write_payload (s := { s with heap := h₂ })
      hs₂ (by rw [List.length_replicate]; exact hroom) hin
    rw [show addr + 8 + UInt64.ofNat 0 = addr + 8 from UInt64.add_zero _] at hwrite
    have hsame : splice (List.replicate (payloadSize lib name inner payload m).toNat 0) 0 bytes =
        bytes := by
      rw [splice, List.take_zero, List.nil_append, Nat.zero_add, hlength,
        List.drop_eq_nil_of_le (by rw [List.length_replicate]), List.append_nil]
    rw [hsame] at hb₃
    refine (hfollows.ok_or ?_).imp_right fun hcall =>
      ⟨addr, h₃, bytes, hcall, hs₃, ?_, ?_, hfresh, hb₃, hlength, hdecode⟩
    · rw [Run.bind_ok halloc, Run.bind_ok hcount]
      exact Run.bind_ok (writeAt_of_write (s := { s with heap := h₂ }) hencode hwrite)
    · rw [hlive₃, hlive₂, hlive₁]
      rfl
    · intro e he hne
      exact hkeeps₃ e (hkeeps₂ e (harrays₁ ▸ List.mem_cons_of_mem _ he) hne) hne

end Calls

end Wraps

end Kiln
