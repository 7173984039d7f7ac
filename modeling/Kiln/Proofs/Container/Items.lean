import Kiln.Proofs.Container.Arrays
import Kiln.Proofs.Container.Elements
/-!
# Arrays keep their items

An array holds the items that it was made of until its last owner releases it, whatever is done with
other arrays in between. The invariant is that the store keeps the ledger (`ArrayType.Ledger.Kept`):
the heap keeps its books, where the block of each array spells the array's items, and the distance
of the elements is kept in its global once it was measured. Each turn that the ledger allows is
answered as it expects and keeps it (`Indexed.step`), so the same holds after any run
(`ArrayType.Trace.kept`), of any array that could be declared (`Reached.declareArray_keeps_items`).
-/

namespace Kiln

open Blueprint Source

namespace ArrayType

variable (A : ArrayType)

/-- **The store keeps the ledger**: the heap keeps the books, and the global of the distance says
whether it was measured. -/
structure Ledger.Kept (b : Ledger) (s : Store) : Prop where
  books : b.books.Kept A.kind s.heap
  cached : s.global? A.operations.id 0 =
    some (.int (if b.measured then A.dataOffset.toInt64 else -1))

/-- What a turn leaves alone: making an array writes no byte outside of its block, asking for
something changes nothing, and what is done with the handle of an array leaves all other arrays as
they are. -/
def Leaves (s s' : Store) : Event → Answer → Prop
  | .new v, answer => ∀ addr, answer = .value (A.handle addr) →
    s.heap.Confines ⟨addr.toNat, A.room (some v)⟩ s'.heap ∧ ∀ e ∈ s.heap.arrays, e ∈ s'.heap.arrays
  | .length _, _ | .index _ _, _ | .locate _ _, _ | .count _, _ => s' = s
  | .duplicate addr, _ | .release addr, _ => s.heap.KeepsBut addr s'.heap
  | _, _ => True

/-- The turn ends for lack of room, or is answered as the ledger expects it and keeps the ledger. -/
def Ledger.Goes (b : Ledger) (lib : Library) (depth : Nat) (s : Store) (e : Event) : Prop :=
  (e.run A lib depth).OutOfRoom s ∨ ∃ answer s', e.run A lib depth s = .ok answer s' ∧
    b.Expects A e answer ∧ A.Leaves s s' e answer ∧ (b.record e answer).Kept A s'

end ArrayType

namespace Indexed

variable {lib : Library} {name : String} {elem : Tree} {m ops : Module}
  (h : Indexed lib name elem m ops) {b : ArrayType.Ledger} {s : Store}

include h

/-- The global of the distance, as the operations find it. -/
theorem kept_iff {measured : Bool} : s.global? (arrayType lib name elem m ops).operations.id 0 =
    some (.int (if measured then (arrayType lib name elem m ops).dataOffset.toInt64 else -1)) ↔
      Kept lib m s measured := by
  rw [h.dataOffset_eq, arrayType, h.id]
  rfl

/-- The elements of an array lie inside of its block. -/
theorem room_of_lists {items : List Value} {v : Value}
    (hv : (arrayType lib name elem m ops).Lists items v) :
    16 + items.length * (stride lib name elem).toNat ≤
      (arrayType lib name elem m ops).room (some v) := by
  obtain ⟨data, rfl, -⟩ := h.bytes_of_lists hv
  have hfew := hv.few
  have hword : UInt64.size = 2 ^ 64 := rfl
  rw [h.room_seq, UInt64.toNat_ofNat_of_lt' (by omega)]
  exact (le_roundedSize _).1

omit h in
/-- An array that has owners has its items in its block. -/
theorem spelled (hk : b.Kept (arrayType lib name elem m ops) s) {addr : UInt64} {items : List Value}
    (hhas : b.Has (arrayType lib name elem m ops) addr items) :
    ∃ a ∈ b.books.accounts, a.addr = addr ∧ ∃ v count bytes, a.content = some v ∧
      (arrayType lib name elem m ops).Lists items v ∧
      BlockAt s.heap ((arrayType lib name elem m ops).room (some v)) addr count bytes ∧
      8 + bytes.length ≤ (arrayType lib name elem m ops).room (some v) ∧
      (arrayType lib name elem m ops).kind.spells (some v) bytes := by
  obtain ⟨a, ha, rfl, v, hv, hlists⟩ := hhas
  obtain ⟨-, -, bytes, hblock, hroom, hspells⟩ := hk.books.accounts a ha
  rw [hv] at hblock hroom hspells
  exact ⟨a, ha, rfl, v, _, bytes, hv, hlists, hblock, hroom, hspells⟩

/-! ## Events -/

section Events

variable {later : Library} (hgrows : (whole lib m ops).Grows later)
  (hk : b.Kept (arrayType lib name elem m ops) s) (depth : Nat)

include hgrows

omit h in
theorem find?_ops : later.find? (lib.push m).nextId = some ops :=
  hgrows _ _ (find?_push_nextId (lib.push m) ops)

omit h in
theorem find?_wrapper : later.find? lib.nextId = some m := hgrows _ _ (find?_whole lib m ops)

theorem find?_base : later.find? ⟨0⟩ = some Module.base :=
  hgrows _ _ ((lib.push m).grows_push ops _ _ (lib.grows_push m _ _ h.wraps.base))

include hk

/-- **An array is made of a sequence**, in a block of its own. -/
theorem goes_new {v : Value} (hp : b.Permits (arrayType lib name elem m ops) (.new v)) :
    b.Goes (arrayType lib name elem m ops) later depth s (.new v) := by
  obtain ⟨items, hv⟩ := hp
  rcases h.new_ok (h.find?_base hgrows) hk.books.sound (find?_ops hgrows)
    (h.kept_iff.1 hk.cached) hv depth with hout
      | ⟨addr, s', bytes, hcall, hs', hlive, hkeeps, hconfines, hblock, hroom, hspells, hcached⟩
  · exact .inl hout.bind
  · refine .inr ⟨.value _, s', Run.bind_ok hcall, ⟨addr, by rw [h.handle_eq]⟩, ?_, ?_,
      h.kept_iff.2 hcached⟩
    · intro addr' heq
      rw [h.handle_eq] at heq
      cases heq
      exact ⟨hconfines, hkeeps⟩
    · exact hk.books.opened hs' hlive hkeeps hblock hroom hspells

/-- **An array tells its length.** -/
theorem goes_length {addr : UInt64}
    (hp : b.Permits (arrayType lib name elem m ops) (.length addr)) :
    b.Goes (arrayType lib name elem m ops) later depth s (.length addr) := by
  obtain ⟨a, ha, rfl⟩ := hp
  obtain ⟨-, -, bytes, hblock, hroom, n, data, hcontent, rfl, -⟩ := hk.books.accounts a ha
  have hcall := h.length_ok hk.books.sound (find?_ops hgrows) hblock hroom depth
    (.struct (Wraps.blockRef lib name))
  rw [← h.handle_eq] at hcall
  rcases hcall with hout | hcall
  · exact .inl hout.bind
  · refine .inr ⟨.value _, s, Run.bind_ok hcall, fun items hhas => ⟨_, rfl, ?_⟩, rfl, hk⟩
    obtain ⟨a', ha', haddr, v, hv, hlists⟩ := hhas
    rw [hk.books.eq_of_addr ha' ha haddr, hcontent] at hv
    cases hv
    obtain ⟨data', heq, -⟩ := h.bytes_of_lists hlists
    cases heq
    have hfew := hlists.few
    rw [UInt64.toInt64_ofNat', Int64.toInt_ofNat_of_lt (by omega)]

/-- **An array tells where its elements lie.** -/
theorem goes_locate {addr : UInt64} {i : Nat}
    (hp : b.Permits (arrayType lib name elem m ops) (.locate addr i)) :
    b.Goes (arrayType lib name elem m ops) later depth s (.locate addr i) := by
  obtain ⟨items, hhas, hi⟩ := hp
  obtain ⟨a, ha, rfl, v, count, bytes, hv, hlists, hblock, hroom, hspells⟩ := spelled hk hhas
  have hin := h.room_of_lists hlists
  have hle := Nat.mul_le_mul_right (stride lib name elem).toNat hi
  rw [Nat.succ_mul] at hle
  have hcall :=
    h.locate_ok hk.books.sound (find?_ops hgrows) hblock (i := i)
      (by rw [Nat.succ_mul]; omega) depth (.struct (Wraps.blockRef lib name))
  rw [← h.handle_eq] at hcall
  rcases hcall with hout | ⟨p, hcall, hp⟩
  · exact .inl hout.bind
  · have hsixteen : (16 : UInt64).toNat = 16 := rfl
    refine .inr ⟨.value _, s, Run.bind_ok hcall, ⟨a, ha, rfl, p, rfl, ?_, ?_⟩, rfl, hk⟩
    · rw [h.dataOffset_eq, h.stride_eq, hsixteen, hp]
    · rw [h.stride_eq, hv, hp]
      omega

/-- **An array tells its elements.** -/
theorem goes_index {addr : UInt64} {i : Nat}
    (hp : b.Permits (arrayType lib name elem m ops) (.index addr i)) :
    b.Goes (arrayType lib name elem m ops) later depth s (.index addr i) := by
  obtain ⟨items, hhas, hi⟩ := hp
  have hcall : ∀ items, b.Has (arrayType lib name elem m ops) addr items →
      ∀ item, items[i]? = some item →
        (ops.call later depth (name ++ "_index") [(arrayType lib name elem m ops).handle addr,
            .int (.ofNat i)]).OutOfRoom s ∨
          ops.call later depth (name ++ "_index") [(arrayType lib name elem m ops).handle addr,
            .int (.ofNat i)] s =
              .ok (item.stored (whole lib m ops).layouts (elemType lib name elem)) s := by
    intro items hhas item hitem
    obtain ⟨a, ha, rfl, v, count, bytes, hv, hlists, hblock, hroom, hspells⟩ := spelled hk hhas
    rw [h.handle_eq]
    exact h.index_ok hk.books.sound (find?_ops hgrows) hlists hblock hroom hspells hitem depth _
  rcases hcall items hhas _ (List.getElem?_eq_getElem hi) with hout | hok
  · exact .inl hout.bind
  · refine .inr ⟨.value _, s, Run.bind_ok hok, fun items' hhas' item hitem => ?_, rfl, hk⟩
    rcases hcall items' hhas' item hitem with hout | hok'
    · exact absurd hok hout.ne_ok
    · injection hok.symm.trans hok' with heq
      exact congrArg Answer.value heq

/-- **An array gets one more owner.** -/
theorem goes_duplicate {addr : UInt64}
    (hp : b.Permits (arrayType lib name elem m ops) (.duplicate addr)) :
    b.Goes (arrayType lib name elem m ops) later depth s (.duplicate addr) := by
  obtain ⟨a, ha, rfl, hfew⟩ := hp
  have hcall := h.wraps.call_duplicate (find?_wrapper hgrows) hk.books ha depth
    (t := .struct (Wraps.blockRef lib name)) hfew
  rw [← h.handle_eq] at hcall
  rcases hcall with hout | ⟨h', hcall, hkeeps, hkept⟩
  · exact .inl hout.bind
  · exact .inr ⟨.value _, _, Run.bind_ok hcall, rfl, hkeeps, hkept, hk.cached⟩

/-- **An array loses an owner**, and is given back with the last one. -/
theorem goes_release {addr : UInt64}
    (hp : b.Permits (arrayType lib name elem m ops) (.release addr)) :
    b.Goes (arrayType lib name elem m ops) later depth s (.release addr) := by
  obtain ⟨a, ha, rfl⟩ := hp
  have hcall := h.wraps.call_release (find?_wrapper hgrows) hk.books ha depth
    (t := .struct (Wraps.blockRef lib name)) (h.find?_base hgrows)
  rw [← h.handle_eq] at hcall
  rcases hcall with hout | ⟨h', hcall, hkeeps, hkept⟩
  · exact .inl hout.bind
  · exact .inr ⟨.value _, _, Run.bind_ok hcall, rfl, hkeeps, hkept, hk.cached⟩

/-- **An array tells how many owners it has.** -/
theorem goes_count {addr : UInt64} (hp : b.Permits (arrayType lib name elem m ops) (.count addr)) :
    b.Goes (arrayType lib name elem m ops) later depth s (.count addr) := by
  obtain ⟨a, ha, rfl⟩ := hp
  have hcall := h.wraps.call_count (find?_wrapper hgrows) hk.books ha depth
    (t := .struct (Wraps.blockRef lib name))
  rw [← h.handle_eq] at hcall
  rcases hcall with hout | ⟨n, hcall, hn⟩
  · exact .inl hout.bind
  · exact .inr ⟨.value _, _, Run.bind_ok hcall, ⟨a, ha, rfl, _, rfl, hn⟩, rfl, hk⟩

omit h hgrows in
/-- **What other code does** with its own blocks, and with what is not the heap, is none of the
arrays' business. -/
theorem goes_request {r : Request} (hp : b.Permits (arrayType lib name elem m ops) (.request r)) :
    b.Goes (arrayType lib name elem m ops) later depth s (.request r) :=
  (hk.books.run_request hp.1 hp.2).imp_right fun ⟨reply, _, hrun, hkept⟩ =>
    ⟨.reply reply, _, hrun, trivial, trivial, hkept, hk.cached⟩

omit h hgrows in
@[inherit_doc goes_request]
theorem goes_elsewhere {change : Store → Store}
    (hp : b.Permits (arrayType lib name elem m ops) (.elsewhere change)) :
    b.Goes (arrayType lib name elem m ops) later depth s (.elsewhere change) := by
  obtain ⟨hheap, hglobal⟩ := hp s
  refine .inr ⟨.value .unit, change s, rfl, trivial, trivial, ?_, hglobal.trans hk.cached⟩
  rw [hheap]
  exact hk.books

/-- **Every event that the ledger permits is answered as it expects it, and keeps it.** -/
theorem step {e : ArrayType.Event} (hp : b.Permits (arrayType lib name elem m ops) e) :
    b.Goes (arrayType lib name elem m ops) later depth s e := by
  cases e with
  | new v => exact h.goes_new hgrows hk depth hp
  | length addr => exact h.goes_length hgrows hk depth hp
  | index addr i => exact h.goes_index hgrows hk depth hp
  | locate addr i => exact h.goes_locate hgrows hk depth hp
  | duplicate addr => exact h.goes_duplicate hgrows hk depth hp
  | release addr => exact h.goes_release hgrows hk depth hp
  | count addr => exact h.goes_count hgrows hk depth hp
  | request r => exact goes_request hk depth hp
  | elsewhere change => exact goes_elsewhere hk depth hp

end Events

end Indexed

/-! ## Runs -/

namespace ArrayType

/-- **The store keeps the ledger of every run.** -/
theorem Trace.kept {lib : Library} {name : String} {elem : Tree} {m ops : Module}
    (h : Indexed lib name elem m ops) {s s' : Store} {trace : List (Turn × Answer)} {b b' : Ledger}
    (htrace : Trace (Indexed.arrayType lib name elem m ops) s b trace s' b') :
    b.Kept (Indexed.arrayType lib name elem m ops) s →
      b'.Kept (Indexed.arrayType lib name elem m ops) s' := by
  induction htrace with
  | nil => exact fun hk => hk
  | cons hallowed hrun _ ih =>
    intro hk
    refine ih ?_
    rcases h.step hallowed.1 hk _ hallowed.2 with hout | ⟨answer, s₁, hok, -, -, hkept⟩
    · exact absurd hrun hout.ne_ok
    · rw [Turn.run, hok] at hrun
      cases hrun
      exact hkept

/-- What a store has in common with the ledger of the run that it comes from, now and after the next
turn. -/
structure Shows (A : ArrayType) (s : Store) (b : Ledger) : Prop where
  /-- The blocks in use are those of the ledger, -/
  live : s.heap.live.Perm (b.blocks A)
  /-- which are not in each other's way. -/
  apart : ((b.blocks A).map (·.addr)).Nodup
  /-- Every array has an owner. -/
  owned : ∀ a ∈ b.books.accounts, 0 < a.owners
  /-- The distance of the elements is kept once it was measured. It is that of the first element in
  the payload of a block. -/
  cached : s.global? A.operations.id 0 =
    some (.int (if b.measured then A.dataOffset.toInt64 else -1))
  /-- The bytes of each item are where the item's place says. -/
  placed : ∀ addr items, b.Has A addr items → ∀ i item, items[i]? = some item →
    ∃ bytes, item.encode A.library.layouts A.elem = .ok bytes ∧
      s.heap.read (addr + A.dataOffset + .ofNat i * A.stride) A.stride = .ok bytes
  /-- A turn that is allowed is answered as the ledger expects it, unless there is no room for it,
  and leaves alone what it should. -/
  next : ∀ t : Turn, t.Allowed A b → (t.run A).OutOfRoom s ∨
    ∃ answer s', t.run A s = .ok answer s' ∧ b.Expects A t.event answer ∧
      A.Leaves s s' t.event answer ∧ s'.heap.live.Perm ((b.record t.event answer).blocks A)

end ArrayType

namespace Indexed

variable {lib : Library} {name : String} {elem : Tree} {m ops : Module}
  (h : Indexed lib name elem m ops) {b : ArrayType.Ledger} {s : Store}
  (hk : b.Kept (arrayType lib name elem m ops) s)

include h hk

/-- The bytes of an item are in the block of its array, at the item's place. -/
theorem read_item {addr : UInt64} {items : List Value}
    (hhas : b.Has (arrayType lib name elem m ops) addr items) {i : Nat} {item : Value}
    (hitem : items[i]? = some item) :
    ∃ bytes, item.encode (whole lib m ops).layouts (elemType lib name elem) = .ok bytes ∧
      s.heap.read (addr + (arrayType lib name elem m ops).dataOffset +
        .ofNat i * (arrayType lib name elem m ops).stride) (arrayType lib name elem m ops).stride =
          .ok bytes := by
  obtain ⟨a, -, rfl, v, count, bytes, -, hlists, hblock, hroom, hspells⟩ := spelled hk hhas
  obtain ⟨hin, hencode, -⟩ := h.item_of_spells hlists hspells hitem
  have hplace := strideFrom_place a.addr i (stride lib name elem)
  rw [strideFrom_eq, Int64.toUInt64_ofNat', UInt64.add_assoc a.addr 8 8] at hplace
  refine ⟨_, hencode, ?_⟩
  rw [h.dataOffset_eq, h.stride_eq]
  exact hplace ▸ hblock.read hk.books.sound hroom hin

/-- **A store that keeps the ledger shows it.** -/
theorem shows_of_kept : (arrayType lib name elem m ops).Shows s b := by
  refine ⟨hk.books.live, hk.books.nodup_addrs, fun a ha => hk.books.owners_pos ha, hk.cached,
    fun addr items hhas i item hitem => h.read_item hk hhas hitem, fun t ht => ?_⟩
  refine (h.step ht.1 hk t.depth ht.2).imp_right
    fun ⟨answer, s₁, hok, hexpects, hleaves, hkept⟩ => ?_
  exact ⟨answer, s₁, hok, hexpects, hleaves, hkept.books.live⟩

end Indexed

/-- **An array keeps its items until its last owner releases it.** Whatever was done with arrays of
a type that could be declared, and by other code with blocks of its own, the blocks in use are those
of the arrays that have owners and those of others. No call fails, each array has the length and the
elements that it was made of, and these lie where the distance that was measured says, inside of the
array's own block. -/
theorem Reached.declareArray_keeps_items {w w' : Workspace} (hw : Reached w) {elem : TypeExpr}
    {ops m : Module} (h : (Work.declareArray elem).run w = .ok (.ok (ops, m)) w') :
    ∃ type,
      (∃ f ∈ ops.functions, f.name = elem.arrayName ++ "_new" ∧ f.params = [("items", .seq type)]) ∧
      w'.store.global? ops.id 0 = some (.int (-1)) ∧
      ∀ {s s' : Store} {trace : List (ArrayType.Turn × Answer)} {b : ArrayType.Ledger},
        s.heap.Sound →
        s.global? ops.id 0 = some (.int (-1)) →
        ArrayType.Trace ⟨w'.library, m, ops, elem.arrayName, type⟩ s
        ⟨⟨[], s.heap.live⟩, false⟩ trace s' b →
        ArrayType.Shows ⟨w'.library, m, ops, elem.arrayName, type⟩ s' b := by
  obtain ⟨hlibrary, hindexed, hglobal⟩ := hw.declareArray_indexed h
  obtain ⟨f, hf, hname, hparams, -⟩ := hindexed.signature (f := Indexed.newFun elem.arrayName
    (Indexed.self w.library elem.arrayName)
    (Indexed.elemType w.library elem.arrayName elem.tree) elem.tree)
    (by simp [Indexed.functions])
  refine ⟨_, ⟨f, hf, hname, hparams⟩, hglobal, fun hs hfirst htrace => ?_⟩
  rw [hlibrary] at htrace ⊢
  exact hindexed.shows_of_kept (htrace.kept hindexed ⟨Books.kept_nil _ hs, hfirst⟩)

/-- Elements of one byte. -/
def byteType : TypeExpr := ⟨⟨.leaf (.sym "u8") default, ⟨"u8", ""⟩⟩, by rfl⟩

/-- Three numbers as bytes, of which the last keeps eight bits alone. -/
def threeBytes : Value := .seq .u8 3 [1, 2, 44]

/-- Whether an array of bytes was declared, and one can be made of three of them. -/
def makesArray : EStateM.Result Halt Workspace (Except ContainerError (Module × Module)) → Bool
  | .ok (.ok (ops, m)) w =>
    (ops.functions.all fun f => f.name != "array_u8_new" || f.params == [("items", .seq .u8)]) &&
      match (⟨w.library, maxDepth, .new threeBytes⟩ : ArrayType.Turn).run
        ⟨w.library, m, ops, "array_u8", .u8⟩ w.freshStore with
      | .ok (.value (.struct _ [.ptr _ _])) _ => true
      | _ => false
  | _ => false

theorem exists_of_makesArray
    {r : EStateM.Result Halt Workspace (Except ContainerError (Module × Module))}
    (h : makesArray r = true) : ∃ ops m w ref addr target s, r = .ok (.ok (ops, m)) w ∧
      (∀ f ∈ ops.functions, f.name = "array_u8_new" → f.params = [("items", .seq .u8)]) ∧
      (⟨w.library, maxDepth, .new threeBytes⟩ : ArrayType.Turn).run
        ⟨w.library, m, ops, "array_u8", .u8⟩
        w.freshStore = .ok (.value (.struct ref [.ptr addr target])) s := by
  unfold makesArray at h
  split at h
  · rename_i ops m w
    obtain ⟨helem, hrun⟩ := Bool.and_eq_true_iff.1 h
    split at hrun
    · rename_i ref addr target s hnew
      refine ⟨ops, m, w, ref, addr, target, s, rfl, fun f hf hname => ?_, hnew⟩
      simpa [hname] using List.all_eq_true.1 helem f hf
    · cases hrun
  · cases h

set_option maxRecDepth 20000 in
theorem makesArray_bytes :
    makesArray ((Work.declareArray byteType).run (.initial 4096 (.empty "/"))) = true := by
  unfold Work.declareArray Work.declareWrapper Container.wrapperUnit Container.arrayParts
    Container.instantiate Template.read
  -- the texts of the templates are given by their characters, which the kernel can scan
  rw [show readForms header = _ from readForms_eq (toList_pasting String.toList_ofList),
    show readForms operations = _ from readForms_eq (toList_pasting String.toList_ofList)]
  simp only [show readForms wrapper = _ from readForms_eq (toList_pasting String.toList_ofList)]
  decide +kernel

theorem Reached.declareArray_keeps_items_bytes : ∃ ops m w addr s,
    (Work.declareArray byteType).run (.initial 4096 (.empty "/")) = .ok (.ok (ops, m)) w ∧
      ArrayType.Trace ⟨w.library, m, ops, "array_u8", .u8⟩ w.freshStore ⟨⟨[], []⟩, false⟩
        [(⟨w.library, maxDepth, .new threeBytes⟩,
          .value (ArrayType.handle ⟨w.library, m, ops, "array_u8", .u8⟩ addr))] s
        ⟨⟨[⟨addr, 0, 0, some threeBytes⟩], []⟩, true⟩ ∧
      ArrayType.Shows ⟨w.library, m, ops, "array_u8", .u8⟩ s
        ⟨⟨[⟨addr, 0, 0, some threeBytes⟩], []⟩, true⟩ := by
  obtain ⟨ops, m, w, ref, addr, target, s, hdeclare, helem, hnew⟩ :=
    exists_of_makesArray makesArray_bytes
  have hname : byteType.arrayName = "array_u8" := by decide +kernel
  obtain ⟨type, ⟨f, hf, hfname, hparams⟩, hfirst, hshows⟩ :=
    Reached.declareArray_keeps_items (.initial 4096 (.empty "/")) hdeclare
  rw [hname] at hfname hshows
  cases hparams.symm.trans (helem f hf hfname)
  have hsound : w.freshStore.heap.Sound := Heap.Sound.withLimit 4096
  have hallowed : ArrayType.Turn.Allowed ⟨w.library, m, ops, "array_u8", .u8⟩ ⟨⟨[], []⟩, false⟩
      ⟨w.library, maxDepth, .new threeBytes⟩ :=
    ⟨.refl _, [.int 1, .int 2, .int 300], by decide, by simp [Value.Conforms], rfl⟩
  have hanswer : Answer.value (.struct ref [.ptr addr target]) =
      .value (ArrayType.handle ⟨w.library, m, ops, "array_u8", .u8⟩ addr) := by
    rcases (hshows hsound hfirst .nil).next _ hallowed with hout
      | ⟨answer, s', hok, ⟨addr', haddr⟩, -⟩
    · exact absurd hnew hout.ne_ok
    · cases hnew.symm.trans hok
      cases haddr
      rfl
  rw [hanswer] at hnew
  have htrace := ArrayType.Trace.cons hallowed hnew .nil
  exact ⟨ops, m, w, addr, s, hdeclare, htrace, hshows hsound hfirst htrace⟩

end Kiln
