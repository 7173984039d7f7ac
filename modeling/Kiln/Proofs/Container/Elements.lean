import Kiln.Proofs.Container.Keeping
import Kiln.Proofs.Container.Ledger
import Kiln.Proofs.Container.Operations
import Kiln.Proofs.Memory.Sequences
import Kiln.Proofs.Typing.Soundness
/-!
# What the operations do to arrays

The block of an array holds the number of its owners behind the first, its length and its elements
(`ArrayType.kind`). Each operation, called in a library that has both modules of the array, does
what it should to the block whose handle it is given. The distance that is measured
(`Indexed.dataOffset_ok`) is the one at which elements are looked up, so a new array has its items
where they are read (`Indexed.new_ok`, `Indexed.index_ok`). Calls may always end for lack of room
instead.
-/

namespace Kiln

open Blueprint Source

/-- What lies in the blocks of arrays: the length behind the number of owners, and then the
elements. -/
def ArrayType.kind (A : ArrayType) : BlockKind where
  room := A.room
  spells content bytes :=
    ∃ n data, content = some (.seq A.elem n data) ∧ bytes = wordBytes n ++ data ∧
    data.length = n.toNat * A.stride.toNat

/-! ## A block that is written -/

/-- The length and the elements take the place of all that was behind the number. -/
theorem splice_array {zeros data : List UInt8} (hzeros : zeros.length = 8 + data.length)
    (n : UInt64) :
    splice (splice zeros 0 (wordBytes n)) 8 data = wordBytes n ++ data := by
  have hword : (wordBytes n).length = 8 := length_wordBytes n
  have hfirst : splice zeros 0 (wordBytes n) = wordBytes n ++ zeros.drop 8 := by
    rw [splice, List.take_zero, List.nil_append, Nat.zero_add, hword]
  rw [hfirst, splice, List.take_append_of_le_length (by omega), List.take_of_length_le (by omega),
    List.drop_eq_nil_of_le (by rw [List.length_append, List.length_drop]; omega), List.append_nil]

/-- **A block becomes that of an array**: its number of owners is set to zero, and the length and
the elements are stored behind it. -/
theorem BlockAt.write_array {s : Store} {room : Nat} {addr : UInt64} {count : Int64}
    {zeros data : List UInt8} (hs : s.heap.Sound) (hb : BlockAt s.heap room addr count zeros)
    (hzeros : zeros.length = 8 + data.length) (hroom : 8 + (8 + data.length) ≤ room)
    (Δ : Layouts) (t : Ty) (n : UInt64) :
    ∃ h₁ h₂ h₃,
      writeAt Δ .i64 (.ptr addr .i64) (.int 0) s = .ok .unit { s with heap := h₁ } ∧
      writeAt Δ .u64 (.ptr (addr + 8) .u64) (.int n.toInt64) { s with heap := h₁ } =
        .ok .unit { s with heap := h₂ } ∧
      copyTo (.ptr (addr + 8 + 8) t) (.seq t n data) { s with heap := h₂ } =
        .ok .unit { s with heap := h₃ } ∧
      h₃.Sound ∧ h₃.live = s.heap.live ∧ s.heap.KeepsBut addr h₃ ∧
      s.heap.Confines ⟨addr.toNat, room⟩ h₃ ∧ BlockAt h₃ room addr 0 (wordBytes n ++ data) := by
  have hword : (wordBytes n).length = 8 := length_wordBytes n
  obtain ⟨h₁, hcount, hs₁, hlive₁, hkeeps₁, hb₁⟩ :=
    hb.write_count (Γ := Δ) (t := .i64) hs (by omega) 0
  obtain ⟨h₂, hlength, hs₂, hlive₂, hkeeps₂, hb₂⟩ :=
    hb₁.write_payload (s := { s with heap := h₁ }) hs₁ (by omega)
      (by omega : 0 + (wordBytes n).length ≤ zeros.length)
  have hsplice : (splice zeros 0 (wordBytes n)).length = zeros.length := length_splice (by omega)
  obtain ⟨h₃, hcopy, hs₃, hlive₃, hkeeps₃, hb₃⟩ :=
    hb₂.write_payload (s := { s with heap := h₂ }) hs₂ (by omega)
      (by omega : 8 + data.length ≤ (splice zeros 0 (wordBytes n)).length)
  rw [splice_array hzeros] at hb₃
  rw [show addr + 8 + UInt64.ofNat 0 = addr + 8 from UInt64.add_zero _] at hlength
  have hbytes : (Value.int n.toInt64).encode Δ .u64 = .ok (wordBytes n) := by
    show Except.ok (wordBytes n.toInt64.toUInt64) = _
    rw [UInt64.toUInt64_toInt64]
  have hstored : writeAt Δ .u64 (.ptr (addr + 8) .u64) (.int n.toInt64) { s with heap := h₁ } =
      .ok .unit { s with heap := h₂ } :=
      writeAt_of_write (s := { s with heap := h₁ }) hbytes hlength
  refine ⟨h₁, h₂, h₃, hcount, hstored, Run.bind_ok (Run.updateHeap_ok hcopy), hs₃,
    hlive₃.trans (hlive₂.trans hlive₁),
    fun e he hne => hkeeps₃ e (hkeeps₂ e (hkeeps₁ e he hne) hne) hne,
    ?_, hb₃⟩
  -- each of the three is written inside of the block
  have hplace₁ := hb₁.toNat_place (s := { s with heap := h₁ }) hs₁ (by omega : 8 + 0 ≤ room)
  rw [show addr + 8 + UInt64.ofNat 0 = addr + 8 from UInt64.add_zero _] at hplace₁
  have hplace₂ := hb₂.toNat_place (s := { s with heap := h₂ }) hs₂ (by omega : 8 + 8 ≤ room)
  have hzero : (Value.int 0).encode Δ .i64 = .ok (wordBytes 0) := rfl
  have hin : ∀ {p len : Nat}, addr.toNat ≤ p → p + len ≤ addr.toNat + room →
      Block.Covers ⟨addr.toNat, room⟩ p len := fun hlo hhi => ⟨hlo, hhi⟩
  refine ((writeAt_confines hs (hb.mem_live hs) hzero (hin (Nat.le_refl _) ?_) hcount).trans
    (writeAt_confines (s := { s with heap := h₁ }) hs₁
      (hb₁.mem_live (s := { s with heap := h₁ }) hs₁) hbytes (hin ?_ ?_) hstored)).trans
        (hs₂.confines_write (hb₂.mem_live (s := { s with heap := h₂ }) hs₂) (hin ?_ ?_) hcopy)
  · rw [length_wordBytes]
    omega
  all_goals omega

/-! ## Addresses and sizes -/

theorem strideFrom_eq (addr : UInt64) (i : Int64) (stride : UInt64) :
    strideFrom addr i stride = addr + i.toUInt64 * stride := by
  rw [strideFrom, Int64.toUInt64_add, Int64.toUInt64_mul, UInt64.toUInt64_toInt64,
    UInt64.toUInt64_toInt64]

theorem distance_eq (addr : UInt64) : (addr + 8 + 8).toInt64 - addr.toInt64 = 16 := by
  rw [UInt64.add_assoc, UInt64.toInt64_add, Int64.add_comm, Int64.add_sub_cancel]
  rfl

/-- Where an element lies is told from the place of its bytes behind the number of owners. -/
theorem strideFrom_place (addr : UInt64) (i : Nat) (stride : UInt64) :
    strideFrom (addr + 8 + 8) (.ofNat i) stride = addr + 8 + .ofNat (8 + i * stride.toNat) := by
  rw [strideFrom_eq, Int64.toUInt64_ofNat', UInt64.ofNat_add, UInt64.ofNat_mul, UInt64.ofNat_toNat,
    ← UInt64.add_assoc]
  rfl

/-- **The size that is asked for** does not wrap: it is that of the number, the length and the
elements. -/
theorem requestedSize_elements (n stride : UInt64) (h : 16 + n.toNat * stride.toNat < 2 ^ 63) :
    (16 + n * stride).toNat = 16 + n.toNat * stride.toNat ∧
      requestedSize (16 + n.toInt64 * stride.toInt64) = 16 + n * stride := by
  have hsixteen : (16 : UInt64).toNat = 16 := rfl
  have hsize : (16 + n * stride).toNat = 16 + n.toNat * stride.toNat := by
    rw [UInt64.toNat_add, UInt64.toNat_mul, hsixteen,
      Nat.mod_eq_of_lt (by omega : n.toNat * stride.toNat < 2 ^ 64), Nat.mod_eq_of_lt (by omega)]
  have hword : (16 : Int64) + n.toInt64 * stride.toInt64 = (16 + n * stride).toInt64 := by
    rw [UInt64.toInt64_add, UInt64.toInt64_mul]
    rfl
  exact ⟨hsize, by rw [hword, requestedSize_toInt64 (by omega)]⟩

namespace Indexed

variable {lib : Library} {name : String} {elem : Tree} {m ops : Module}
  (h : Indexed lib name elem m ops)

/-- The type of the arrays. -/
def arrayType (lib : Library) (name : String) (elem : Tree) (m ops : Module) : ArrayType :=
  ⟨whole lib m ops, m, ops, name, elemType lib name elem⟩

include h

theorem handle_eq (addr : UInt64) : (arrayType lib name elem m ops).handle addr =
    Wraps.handleAt lib name addr (.struct (Wraps.blockRef lib name)) := by
  rw [ArrayType.handle, ArrayType.block, arrayType, h.wraps.id]

theorem stride_eq : (arrayType lib name elem m ops).stride = stride lib name elem :=
  h.size_elem _

/-- **The elements start at the sixteenth byte of a block.** -/
theorem dataOffset_eq : (arrayType lib name elem m ops).dataOffset = 16 := by
  have hfind :
      ∀ struct,
        (whole lib m ops).layouts.find? ⟨m.id, struct⟩ = m.layout? struct := fun struct => by
    rw [h.wraps.id]
    exact Wraps.find?_layouts (find?_whole lib m ops) struct
  rw [ArrayType.dataOffset, ArrayType.offsetOf, ArrayType.offsetOf, arrayType, hfind, hfind,
    h.layout_header, h.wraps.layout_block]
  rfl

theorem room_seq (t : Ty) (n : UInt64) (data : List UInt8) :
    (arrayType lib name elem m ops).room (some (.seq t n data)) =
      roundedSize (16 + n.toNat * (stride lib name elem).toNat) := by
  rw [ArrayType.room, h.dataOffset_eq, h.stride_eq]
  rfl

/-- Bytes spell the same element whatever structs there are. -/
theorem decode_elem (Γ Δ : Layouts) (bytes : List UInt8) :
    Value.decode Γ (elemType lib name elem) bytes =
      Value.decode Δ (elemType lib name elem) bytes := by
  have hnone : ∀ Γ : Layouts, Layouts.none.Within Γ := fun _ _ _ hl => by cases hl
  rw [Value.decode, Value.decode,
    Value.decodeWithin_eq (hnone Γ) bytes (h.elem_fits _ 0) (Nat.zero_le _),
    Value.decodeWithin_eq (hnone Δ) bytes (h.elem_fits _ 0) (Nat.zero_le _)]

/-! ## The distance -/

omit h in
theorem known_ok {s : Store} {v : Value} (hv : s.global? (lib.push m).nextId 0 = some v) :
    known lib m s = .ok v s := by
  have hrun : known lib m s = Run.present (s.global? (lib.push m).nextId 0) s := rfl
  rw [hrun, hv]
  rfl

omit h in
/-- **Measuring** leaves all blocks as they are. -/
theorem measure_ok {s : Store} (hs : s.heap.Sound) :
    (measure lib name elem m).OutOfRoom s ∨
      ∃ heap, measure lib name elem m s =
          .ok () { s.setGlobal (lib.push m).nextId 0 (.int 16) with heap } ∧
        heap.Sound ∧ heap.arrays = s.heap.arrays ∧ ∀ b, s.heap.Confines b heap := by
  rcases allocate_ok hs (requestedSize (Wraps.blockSize lib name (headerTree (suffixed name) elem)
    (suffixed name "_header") m).toInt64) with hfull | ⟨addr, h₁, halloc, hs₁, -, harrays₁, hfresh⟩
  · exact .inl hfull.bind
  · -- the sample is the latest array, and giving it back leaves those before
    obtain ⟨h₂, hrelease, hs₂, -, harrays₂⟩ := release_ok
      (s := { s.setGlobal (lib.push m).nextId 0 (.int 16) with heap := h₁ }) hs₁
      (harrays₁ ▸ List.mem_cons_self)
    refine .inr ⟨h₂, ?_, hs₂, ?_, fun b => ?_⟩
    · rw [measure, Run.bind_ok halloc]
      have hsub :
          BinaryOp.sub.apply (.int (addr + 8 + 8).toInt64) (.int addr.toInt64) = .ok (.int 16) := by
        show Except.ok (Value.int ((addr + 8 + 8).toInt64 - addr.toInt64)) = _
        rw [distance_eq]
      rw [hsub]
      exact hrelease
    · rw [harrays₂, harrays₁, List.filter_cons_of_neg (by simp), List.filter_eq_self]
      exact fun e he => decide_eq_true (hfresh e he)
    · exact (allocate_confines hs halloc b).trans (release_confines hrelease b)

section Calls

variable {later : Library} (hbase : later.find? ⟨0⟩ = some Module.base) {s : Store}
  (hs : s.heap.Sound)

/-- The distance is kept in a global: it is sixteen if it was measured. -/
def Kept (lib : Library) (m : Module) (s : Store) (measured : Bool) : Prop :=
  s.global? (lib.push m).nextId 0 = some (.int (if measured then 16 else -1))

include hbase hs

/-- **The distance is sixteen**, whether it was measured before or is now. -/
theorem dataOffset_ok {measured : Bool} (hkept : Kept lib m s measured) (n : Nat) :
    (calls lib name elem m ops later (n + 2) (.own (dataOffsetFun name)) []).OutOfRoom s ∨
      ∃ s', calls lib name elem m ops later (n + 2) (.own (dataOffsetFun name)) [] s =
        .ok (.int 16) s' ∧
        s'.heap.Sound ∧ s'.heap.arrays = s.heap.arrays ∧ (∀ b, s.heap.Confines b s'.heap) ∧
        Kept lib m s' true := by
  rw [h.run_dataOffset n hbase]
  rw [Kept] at hkept
  have hover : ∀ c : Int64, BinaryOp.lt.apply (.int c) (.int 0) = .ok (.bool (decide (c < 0))) :=
    fun _ => rfl
  cases measured with
  | true =>
    refine .inr ⟨s, ?_, hs, rfl, fun b => Heap.confines_of_memory rfl b, hkept⟩
    rw [Run.bind_ok (known_ok hkept)]
    exact known_ok hkept
  | false =>
    rcases measure_ok hs with hfull | ⟨heap, hmeasure, hs', harrays, hconfines⟩
    · exact .inl (Run.OutOfRoom.after (known_ok hkept) hfull.bind)
    · have hnow : Kept lib m { s.setGlobal (lib.push m).nextId 0 (.int 16) with heap } true :=
        (Store.global?_setGlobal hkept _ 0 (.int 16)).trans (by rw [if_pos ⟨rfl, rfl⟩]; rfl)
      refine .inr ⟨_, ?_, hs', harrays, hconfines, hnow⟩
      rw [Run.bind_ok (known_ok hkept)]
      exact (Run.bind_ok hmeasure).trans (known_ok hnow)

omit hbase hs in
/-- The items of a sequence are behind each other in its bytes. -/
theorem bytes_of_lists {items : List Value} {v : Value}
    (hv : (arrayType lib name elem m ops).Lists items v) :
    ∃ data, v = .seq (elemType lib name elem) (.ofNat items.length) data ∧
      data.length = items.length * (stride lib name elem).toNat ∧ data.length < 2 ^ 62 := by
  have hfits := h.elem_fits (whole lib m ops).layouts (whole lib m ops).layouts.count
  have hspelled : Value.ofItems (whole lib m ops).layouts (elemType lib name elem) items = .ok v :=
    hv.spelled
  obtain ⟨parts, -, rfl⟩ := Value.ofItems_eq hspelled
  obtain ⟨-, hlength⟩ := Value.length_bytes hfits hv.conforms hspelled
  rw [h.size_elem] at hlength
  refine ⟨_, rfl, hlength, ?_⟩
  have hfew := hv.few
  have hle := Nat.mul_le_mul_left items.length h.stride_le
  omega

omit hbase hs in
/-- The bytes of an item are behind the length, at the item's place, and spell the item. -/
theorem item_of_spells {items : List Value} {v : Value} {bytes : List UInt8}
    (hv : (arrayType lib name elem m ops).Lists items v)
    (hspells : (arrayType lib name elem m ops).kind.spells (some v) bytes) {i : Nat} {item : Value}
    (hitem : items[i]? = some item) :
    8 + i * (stride lib name elem).toNat + (stride lib name elem).toNat ≤ bytes.length ∧
      item.encode (whole lib m ops).layouts (elemType lib name elem) =
        .ok (slice bytes (8 + i * (stride lib name elem).toNat) (stride lib name elem).toNat) ∧
      Value.decode (whole lib m ops).layouts (elemType lib name elem)
        (slice bytes (8 + i * (stride lib name elem).toNat) (stride lib name elem).toNat) =
          .ok (item.stored (whole lib m ops).layouts (elemType lib name elem)) := by
  obtain ⟨n, data, heq, rfl, -⟩ := hspells
  cases heq
  obtain ⟨-, hlength⟩ := Value.length_bytes (h.elem_fits _ _) hv.conforms hv.spelled
  have hdecode := Value.decode_item (h.elem_fits _ _) hv.conforms hv.spelled hitem
  have hplace := slice_append_right (wordBytes n) data (i * (stride lib name elem).toNat)
    (stride lib name elem).toNat
  rw [length_wordBytes] at hplace
  rw [h.size_elem] at hlength hdecode
  have hlt : i + 1 ≤ items.length := (List.getElem?_eq_some_iff.1 hitem).1
  have hin := Nat.mul_le_mul_right (stride lib name elem).toNat hlt
  rw [Nat.succ_mul] at hin
  refine ⟨?_, hplace ▸ hdecode⟩
  rw [List.length_append, length_wordBytes, hlength]
  omega

/-- **A new array has one owner and the elements that were passed.** -/
theorem new_ok (hlater : later.find? (lib.push m).nextId = some ops) {measured : Bool}
    (hkept : Kept lib m s measured) {items : List Value} {v : Value}
    (hv : (arrayType lib name elem m ops).Lists items v) (depth : Nat) :
    (ops.call later depth (name ++ "_new") [v]).OutOfRoom s ∨
      ∃ addr s' bytes, ops.call later depth (name ++ "_new") [v] s =
          .ok (Wraps.handleAt lib name addr (.struct (Wraps.blockRef lib name))) s' ∧
        s'.heap.Sound ∧
        s'.heap.live = ⟨addr.toNat, (arrayType lib name elem m ops).room (some v)⟩ :: s.heap.live ∧
        (∀ e ∈ s.heap.arrays, e ∈ s'.heap.arrays) ∧
        s.heap.Confines ⟨addr.toNat, (arrayType lib name elem m ops).room (some v)⟩ s'.heap ∧
        BlockAt s'.heap ((arrayType lib name elem m ops).room (some v)) addr 0 bytes ∧
        8 + bytes.length ≤ (arrayType lib name elem m ops).room (some v) ∧
        (arrayType lib name elem m ops).kind.spells (some v) bytes ∧ Kept lib m s' true := by
  obtain ⟨data, rfl, hlength, hsmall⟩ := h.bytes_of_lists hv
  have hfew := hv.few
  have hword : UInt64.size = 2 ^ 64 := rfl
  have hcount : (UInt64.ofNat items.length).toNat = items.length :=
    UInt64.toNat_ofNat_of_lt' (by omega)
  rw [h.room_seq, hcount]
  generalize hn : UInt64.ofNat items.length = n at hcount hv
  obtain ⟨hneed, hrequest⟩ := requestedSize_elements n (stride lib name elem)
    (by rw [hcount, ← hlength]; omega)
  rw [hcount, ← hlength] at hneed
  have hfollows := h.call_follows hlater
    (f := newFun name (self lib name) (elemType lib name elem) elem) (by simp [functions])
    (by omega : depth < depth + 3) [.seq (elemType lib name elem) n data]
  have hrun : calls lib name elem m ops later (depth + 3) _ _ = _ :=
    h.run_new depth (.seq (elemType lib name elem) n data) hbase
  rw [hrun] at hfollows
  have hlen : lengthOf (.seq (elemType lib name elem) n data) s = .ok (.int n.toInt64) s := rfl
  -- the distance may have to be measured first, with a block that is taken and given back
  rcases h.dataOffset_ok hbase hs hkept depth with
    hfull | ⟨s₁, hdistance, hs₁, harrays₁, hconfines₁, hkept₁⟩
  · exact .inl (hfollows.outOfRoom (.after hlen hfull.bind))
  have hlive₁ : s₁.heap.live = s.heap.live := by
    rw [← Heap.blocks_arrays hs₁, ← Heap.blocks_arrays hs, harrays₁]
  rcases allocate_ok hs₁ (16 + n * stride lib name elem) with
    hfull | ⟨addr, h₂, halloc, hs₂, hlive₂, harrays₂, hfresh⟩
  · refine .inl (hfollows.outOfRoom (.after hlen (.after hdistance ?_)))
    show ((allocate (requestedSize (16 + n.toInt64 * (stride lib name elem).toInt64))) >>=
      _).OutOfRoom s₁
    rw [hrequest]
    exact hfull.bind
  rw [hneed] at hlive₂ harrays₂
  have hroom := (le_roundedSize (16 + data.length)).1
  have hzeros : BlockAt h₂ (roundedSize (16 + data.length)) addr 0
      (List.replicate (8 + data.length) 0) := .zeros (harrays₂ ▸ List.mem_cons_self) (by omega)
  obtain ⟨h₃, h₄, h₅, hcount', hstore, hcopy, hs₅, hlive₅, hkeeps₅, hconfines₅, hb₅⟩ :=
    BlockAt.write_array (s := { s₁ with heap := h₂ }) hs₂ hzeros List.length_replicate (by omega)
      later.layouts (elemType lib name elem) n
  have hstart : strideFrom addr 16 1 = addr + 8 + 8 := by
    rw [strideFrom_eq, UInt64.add_assoc]
    rfl
  rw [← hlength]
  refine (hfollows.ok_or ?_).imp_right fun hcall =>
    ⟨addr, { s₁ with heap := h₅ }, wordBytes n ++ data, hcall, hs₅, ?_, fun e he => ?_, ?_, hb₅, ?_,
      ⟨n, data, rfl, rfl, ?_⟩, hkept₁⟩
  · rw [Run.bind_ok hlen, Run.bind_ok hdistance]
    show ((allocate (requestedSize (16 + n.toInt64 * (stride lib name elem).toInt64))) >>= _) s₁ = _
    rw [hrequest, Run.bind_ok halloc, Run.bind_ok hcount', Run.bind_ok hstore]
    show (copyTo (.ptr (strideFrom addr 16 1) _) _ >>= _) _ = _
    rw [hstart]
    exact Run.bind_ok hcopy
  · rw [hlive₅, hlive₂, hlive₁]
  · have hold : e ∈ s₁.heap.arrays := harrays₁ ▸ he
    exact hkeeps₅ e (harrays₂ ▸ List.mem_cons_of_mem _ hold) (hfresh e hold)
  · exact ((hconfines₁ _).trans (allocate_confines hs₁ halloc _)).trans hconfines₅
  · rw [List.length_append, length_wordBytes]
    omega
  · rw [hcount, h.stride_eq, hlength]

omit hbase in
/-- **An array is as long as the sequence that it was made of.** -/
theorem length_ok (hlater : later.find? (lib.push m).nextId = some ops) {room : Nat} {addr : UInt64}
    {count : Int64} {n : UInt64} {data : List UInt8}
    (hb : BlockAt s.heap room addr count (wordBytes n ++ data))
    (hroom : 8 + (wordBytes n ++ data).length ≤ room) (depth : Nat) (t : Ty) :
    (ops.call later depth (name ++ "_length") [Wraps.handleAt lib name addr t]).OutOfRoom s ∨
      ops.call later depth (name ++ "_length") [Wraps.handleAt lib name addr t] s =
        .ok (.int n.toInt64) s := by
  have hfollows := h.call_follows hlater (f := lengthFun name (self lib name)) (by simp [functions])
    (Nat.lt_succ_self depth) [Wraps.handleAt lib name addr t]
  have hrun : calls lib name elem m ops later (depth + 1) _ _ = _ := h.run_length depth addr t
  rw [hrun] at hfollows
  have hword : (wordBytes n).length = 8 := length_wordBytes n
  have hdecode : Value.decode later.layouts .u64 (slice (wordBytes n ++ data) 0 8) =
      .ok (.int n.toInt64) := by
    have hwithin : Value.decodeWithin later.layouts later.layouts.count .u64 (wordBytes n) =
        .ok (.int (wordOfBytes (wordBytes n)).toInt64) := by
      cases later.layouts.count <;> rfl
    rw [slice_append_left hword, Value.decode, hwithin, wordOfBytes_wordBytes]
  have hsize : (Ty.size later.layouts .u64).toNat = 8 := rfl
  have hread :
      readAt later.layouts .u64 (.ptr (addr + 8 + .ofNat 0) .u64) s = .ok (.int n.toInt64) s :=
    hb.read_part hs hroom (by rw [hsize, List.length_append]; omega) (by rw [hsize, hdecode])
  rw [show addr + 8 + UInt64.ofNat 0 = addr + 8 from UInt64.add_zero _] at hread
  exact hfollows.ok_or hread

omit hbase in
/-- **Elements lie one stride behind the other**, from the sixteenth byte on and inside of the
block. -/
theorem locate_ok (hlater : later.find? (lib.push m).nextId = some ops) {room : Nat} {addr : UInt64}
    {count : Int64} {bytes : List UInt8} (hb : BlockAt s.heap room addr count bytes) {i : Nat}
    (hroom : 16 + (i + 1) * (stride lib name elem).toNat ≤ room) (depth : Nat) (t : Ty) :
    (ops.call later depth (name ++ "_index_address")
        [Wraps.handleAt lib name addr t, .int (.ofNat i)]).OutOfRoom s ∨
      ∃ p, ops.call later depth (name ++ "_index_address")
          [Wraps.handleAt lib name addr t, .int (.ofNat i)] s =
            .ok (.ptr p (elemType lib name elem)) s ∧
        p.toNat = addr.toNat + 16 + i * (stride lib name elem).toNat := by
  have hfollows := h.call_follows hlater
    (f := indexAddressFun name (self lib name) (elemType lib name elem)) (by simp [functions])
    (Nat.lt_succ_self depth) [Wraps.handleAt lib name addr t, .int (.ofNat i)]
  have hrun : calls lib name elem m ops later (depth + 1) _ _ = _ :=
    h.run_indexAddress depth addr t (.ofNat i)
  rw [hrun, strideFrom_place] at hfollows
  rw [Nat.succ_mul] at hroom
  refine (hfollows.ok_or rfl).imp_right fun hcall => ⟨_, hcall, ?_⟩
  rw [hb.toNat_place hs (by omega)]
  omega

omit hbase in
/-- **An element is the item that was passed**, as its type stores it. -/
theorem index_ok (hlater : later.find? (lib.push m).nextId = some ops)
    {items : List Value} {v : Value} (hv : (arrayType lib name elem m ops).Lists items v)
    {room : Nat} {addr : UInt64} {count : Int64} {bytes : List UInt8}
    (hb : BlockAt s.heap room addr count bytes) (hroom : 8 + bytes.length ≤ room)
    (hspells : (arrayType lib name elem m ops).kind.spells (some v) bytes) {i : Nat} {item : Value}
    (hitem : items[i]? = some item) (depth : Nat) (t : Ty) :
    (ops.call later depth (name ++ "_index")
        [Wraps.handleAt lib name addr t, .int (.ofNat i)]).OutOfRoom s ∨
      ops.call later depth (name ++ "_index") [Wraps.handleAt lib name addr t, .int (.ofNat i)] s =
        .ok (item.stored (whole lib m ops).layouts (elemType lib name elem)) s := by
  have hfollows :=
    h.call_follows hlater (f := indexFun name (self lib name) (elemType lib name elem))
      (by simp [functions]) (by omega : depth < depth + 2)
    [Wraps.handleAt lib name addr t, .int (.ofNat i)]
  have hrun : calls lib name elem m ops later (depth + 2) _ _ = _ :=
    h.run_index depth addr t (.ofNat i)
  rw [hrun, strideFrom_place] at hfollows
  obtain ⟨hin, -, hdecode⟩ := h.item_of_spells hv hspells hitem
  refine hfollows.ok_or (hb.read_part hs hroom ?_ ?_)
  · rwa [h.size_elem]
  · rwa [h.size_elem, h.decode_elem later.layouts (whole lib m ops).layouts]

end Calls

end Indexed

end Kiln
