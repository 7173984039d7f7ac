import Kiln.Proofs.Container.Indexed
/-!
# What the operations of an array do

Each operation, as a run that names no variable any more (`run_new`, `run_index` and so on), and
that a call of it on the machine follows (`Indexed.call_follows`). Where the elements start is
measured by the first operation that asks for it and kept in a global of the unit
(`run_dataOffset`).
-/

namespace Kiln

open Blueprint Source

namespace Indexed

variable {lib : Library} {name : String} {elem : Tree} {m ops : Module}

/-! ## Functions -/

section Functions

variable (name : String) (self elemType : Ty) (elem : Tree)

/-- The operations, given the types of handles and of elements. -/
def dataOffsetFun : Fun := ⟨name ++ "_data_offset", [], .u64, dataOffsetBody (suffixed name)⟩

@[inherit_doc dataOffsetFun]
def newFun : Fun :=
  ⟨name ++ "_new", [("items", .seq elemType)], self, arrayNewBody (word name) (suffixed name) elem⟩

@[inherit_doc dataOffsetFun]
def lengthFun : Fun := ⟨name ++ "_length", [("array", self)], .u64, lengthBody⟩

@[inherit_doc dataOffsetFun]
def indexAddressFun : Fun :=
  ⟨name ++ "_index_address", [("array", self), ("index", .u64)], .ptr elemType, indexAddressBody⟩

@[inherit_doc dataOffsetFun]
def indexFun : Fun :=
  ⟨name ++ "_index", [("array", self), ("index", .u64)], elemType, indexBody (suffixed name)⟩

/-- All of them, in their order. -/
def functions : List Fun :=
  [dataOffsetFun name, newFun name self elemType elem, lengthFun name self,
    indexAddressFun name self elemType, indexFun name self elemType]

end Functions

/-- The type of a handle. -/
abbrev self (lib : Library) (name : String) : Ty := .struct (Wraps.selfRef lib name)

/-- A name with something behind it is in no table whose names do not end so. -/
theorem lookup_suffixed {α : Type} {suffix : String} {table : List (String × α)}
    (h : ∀ p ∈ table, ¬suffix.toList <:+ p.1.toList) : table.lookup (name ++ suffix) = none := by
  rw [List.lookup_eq_none_iff]
  exact fun p hp => bne_iff_ne.2 (Wraps.append_ne (h p hp))

variable (h : Indexed lib name elem m ops)

include h

theorem functions_eq : (scenery lib name elem m).functions =
    functions name (self lib name) (elemType lib name elem) elem := by
  rw [scenery, (Scenery.definitions_ofUnit _ _ _).1, ← scenery, self, ← h.typeOf_elem,
    ← h.typeOf_self]
  rfl

omit h in
theorem globals_eq : (scenery lib name elem m).globals = [⟨name ++ "_cached_offset", .i64⟩] := by
  rw [scenery, (Scenery.definitions_ofUnit _ _ _).2, ← scenery]
  rfl

omit h in
theorem ownGlobal?_cached :
    (scenery lib name elem m).ownGlobal? (name ++ "_cached_offset") = some (0, .i64) := by
  rw [Scenery.ownGlobal?, globals_eq]
  simp

omit h in
theorem global?_cached : (scenery lib name elem m).global? (name ++ "_cached_offset") =
    some ((lib.push m).nextId, 0, .i64) := by
  rw [Scenery.global?, globals_eq]
  simp
  rfl

theorem function?_dataOffset : (scenery lib name elem m).function? (name ++ "_data_offset") =
    some (.own (dataOffsetFun name), .u64) := by
  rw [Scenery.function?, h.functions_eq]
  simp [functions, dataOffsetFun]

theorem function?_indexAddress : (scenery lib name elem m).function? (name ++ "_index_address") =
    some (.own (indexAddressFun name (self lib name) (elemType lib name elem)),
      .ptr (elemType lib name elem)) := by
  rw [Scenery.function?, h.functions_eq]
  simp [functions, dataOffsetFun, newFun, lengthFun, indexAddressFun]

/-- A name that no function of the array has is one of the base library. -/
theorem function?_base {function : String} {handle : FunctionHandle} {result : Ty}
    (hsuffix : ∀ suffix ∈ ["_new", "_deref", "_duplicate", "_release", "_count", "_data_offset",
      "_length", "_index_address", "_index"], ¬suffix.toList <:+ function.toList)
    (hhandle : Module.base.handle? function = some handle)
    (hresult : (Module.base.functions[handle.index]?).map (·.result) = some result) :
    (scenery lib name elem m).function? function = some (.compiled handle, result) := by
  obtain ⟨f, hf, rfl⟩ := Option.map_eq_some_iff.1 hresult
  simp only [List.forall_mem_cons] at hsuffix
  obtain ⟨h₁, h₂, h₃, h₄, h₅, h₆, h₇, h₈, h₉, -⟩ := hsuffix
  have hnone : (scenery lib name elem m).functions.find? (·.name = function) = none := by
    rw [h.functions_eq, List.find?_eq_none]
    simp only [functions, List.forall_mem_cons, decide_eq_true_eq]
    exact ⟨Wraps.append_ne h₆, Wraps.append_ne h₁, Wraps.append_ne h₇, Wraps.append_ne h₈,
      Wraps.append_ne h₉, fun _ hmem => by cases hmem⟩
  have hwrapper : m.handle? function = none := by
    obtain ⟨root, names, forms, hsettled, hspans⟩ := h.wraps.settled
    have hnames := hsettled.names_of_respan hspans
    rw [← Wraps.scenery, h.wraps.functions_eq] at hnames
    rw [Module.handle?, Option.map_eq_none_iff, Module.functionIndex?, List.findIdx?_eq_none_iff]
    intro g hg
    have hmem := hnames ▸ List.mem_map_of_mem hg
    simp only [Wraps.functions, List.map_cons, List.map_nil, List.mem_cons, List.not_mem_nil,
      or_false] at hmem
    refine decide_eq_false fun heq => ?_
    rcases hmem with hmem | hmem | hmem | hmem | hmem
    · exact Wraps.append_ne h₁ (hmem.symm.trans heq)
    · exact Wraps.append_ne h₂ (hmem.symm.trans heq)
    · exact Wraps.append_ne h₃ (hmem.symm.trans heq)
    · exact Wraps.append_ne h₄ (hmem.symm.trans heq)
    · exact Wraps.append_ne h₅ (hmem.symm.trans heq)
  have hdeps : (scenery lib name elem m).deps ++ [Module.base] = [m, Module.base] := rfl
  rw [Scenery.function?, hnone, hdeps, List.findSome?_cons, hwrapper]
  dsimp only [Option.bind_eq_bind, Option.bind_none]
  rw [List.findSome?_cons, hhandle]
  dsimp only [Option.bind_eq_bind, Option.bind_some]
  rw [hf]
  rfl

theorem function?_malloc : (scenery lib name elem m).function? "malloc" =
    some (.compiled ⟨⟨0⟩, 0⟩, .bytePtr) :=
  h.function?_base (by decide) (by decide) rfl

theorem function?_free : (scenery lib name elem m).function? "free" =
    some (.compiled ⟨⟨0⟩, 1⟩, .unit) :=
  h.function?_base (by decide) (by decide) rfl

/-! ## Fields -/

omit h

/-- The type of a header. -/
abbrev headerRef (lib : Library) (name : String) : StructRef := ⟨lib.nextId, name ++ "_header"⟩

section Fields

variable {later : Library} (hlater : later.find? lib.nextId = some m)

include h hlater

theorem fieldOf_payload :
    fieldOf later.layouts (.struct (Wraps.blockRef lib name)) (word "payload") =
    ⟨"payload", .struct (headerRef lib name), 8⟩ := by
  rw [h.wraps.fieldOf_payload hlater, ← h.typeOf_header]

theorem fieldOf_length : fieldOf later.layouts (.struct (headerRef lib name)) (word "length") =
    ⟨"length", .u64, 0⟩ := by
  have hlayout := (Wraps.find?_layouts hlater (name ++ "_header")).trans h.layout_header
  rw [fieldOf, layoutOf, hlayout]
  rfl

theorem fieldOf_first : fieldOf later.layouts (.struct (headerRef lib name)) (word "first") =
    ⟨"first", elemType lib name elem, 8⟩ := by
  have hlayout := (Wraps.find?_layouts hlater (name ++ "_header")).trans h.layout_header
  rw [fieldOf, layoutOf, hlayout]
  rfl

end Fields

/-! ## Runs -/

/-- The library that has both modules at its end. -/
abbrev whole (lib : Library) (m ops : Module) : Library := (lib.push m).push ops

theorem find?_whole (lib : Library) (m ops : Module) :
    (whole lib m ops).find? lib.nextId = some m :=
  (lib.push m).grows_push ops _ _ (find?_push_nextId lib m)

/-- Calls of the operations, nested so many levels deep at most. -/
abbrev calls (lib : Library) (name : String) (elem : Tree) (m ops : Module) (later : Library) :
    Nat → Calls :=
  run (scenery lib name elem m) (whole lib m ops).layouts later

/-- The distance of the elements from the start of a block, as far as it is known. -/
def known (lib : Library) (m : Module) : Run Value := do
  Run.present ((← get).global? (lib.push m).nextId 0)

/-- Measures the distance in a block that is given back at once. -/
def measure (lib : Library) (name : String) (elem : Tree) (m : Module) : Run Unit := do
  let addr ← allocate (requestedSize (Wraps.blockSize lib name (headerTree (suffixed name) elem)
    (suffixed name "_header") m).toInt64)
  let distance ← Run.lift (BinaryOp.sub.apply (.int (addr + 8 + 8).toInt64) (.int addr.toInt64))
  modify (·.setGlobal (lib.push m).nextId 0 distance)
  Run.updateHeap (·.release addr)

section Runs

variable {later : Library} (n : Nat) (addr : UInt64) (t : Ty) (i : Int64) (v : Value)

include h

/-- The length is the eighth byte. -/
theorem run_length :
    calls lib name elem m ops later (n + 1) (.own (lengthFun name (self lib name)))
        [Wraps.handleAt lib name addr t] =
      readAt later.layouts .u64 (.ptr (addr + 8) .u64) := by
  have hwhole := find?_whole lib m ops
  rw [calls, run]
  simp [lengthFun, lengthBody, arrayBlockOf, ofBody_eq, Expr.runLast, paramScope, Value.fieldAt,
    fieldAt, pointee, h.wraps.fieldIndex_self hwhole, h.wraps.fieldOf_self hwhole,
    h.fieldOf_payload hwhole, h.fieldOf_length hwhole, returned, Value.asPtr]

/-- The elements start at the sixteenth byte, one stride after the other. -/
theorem run_indexAddress :
    calls lib name elem m ops later (n + 1)
        (.own (indexAddressFun name (self lib name) (elemType lib name elem)))
        [Wraps.handleAt lib name addr t, .int i] =
      pure (.ptr (strideFrom (addr + 8 + 8) i (stride lib name elem))
        (elemType lib name elem)) := by
  have hwhole := find?_whole lib m ops
  rw [calls, run]
  simp [indexAddressFun, indexAddressBody, firstOf, arrayBlockOf, ofBody_eq,
    Expr.runLast, paramScope, Value.fieldAt, fieldAt, pointee, h.wraps.fieldIndex_self hwhole,
    h.wraps.fieldOf_self hwhole,
    h.fieldOf_payload hwhole, h.fieldOf_first hwhole, returned, Value.asPtr, strideBy, Value.asInt,
    h.size_elem]

/-- An element is read where it lies. -/
theorem run_index :
    calls lib name elem m ops later (n + 2)
        (.own (indexFun name (self lib name) (elemType lib name elem)))
        [Wraps.handleAt lib name addr t, .int i] =
      readAt later.layouts (elemType lib name elem)
        (.ptr (strideFrom (addr + 8 + 8) i (stride lib name elem)) (elemType lib name elem)) := by
  have hop : BinaryOp.ofSymbol? (name ++ "_index_address") = none := lookup_suffixed (by decide)
  have hform : Form.ofWord? (name ++ "_index_address") = none := lookup_suffixed (by decide)
  have hcall := fun again place => ofTree_call (whole lib m ops).layouts later.layouts again place
    [word "array", word "index"] hop hform h.function?_indexAddress
  have haddress : calls lib name elem m ops later (n + 1) _ _ = _ := h.run_indexAddress n addr t i
  rw [calls] at haddress
  rw [calls, run]
  simp [indexFun, indexBody, ofBody_eq, suffixed, hcall, haddress, Expr.runLast,
    paramScope, pointee, returned, Expr.lastType]

variable (hbase : later.find? ⟨0⟩ = some Module.base)

include hbase

/-- The distance is measured if it is not known, and then it is. -/
theorem run_dataOffset :
    calls lib name elem m ops later (n + 2) (.own (dataOffsetFun name)) [] = (do
      let distance ← known lib m
      let below ← Run.lift (BinaryOp.lt.apply distance (.int 0))
      if ← Run.lift below.asBool then measure lib name elem m
      known lib m) := by
  have hwhole := find?_whole lib m ops
  have hmalloc :=
    fun again place u => ofTree_call (whole lib m ops).layouts later.layouts again place [u]
      (by decide) (by decide) h.function?_malloc
  have hfree :=
    fun again place u => ofTree_call (whole lib m ops).layouts later.layouts again place [u]
      (by decide) (by decide) h.function?_free
  have hhome : (scenery lib name elem m).home = (lib.push m).nextId := rfl
  have hblock : (scenery lib name elem m).typeOf (word (name ++ "_block")) =
    .struct (Wraps.blockRef lib name) := h.typeOf_block
  -- no variable hides the global
  have hsample : "sample" ≠ name ++ "_cached_offset" := (Wraps.append_ne (by decide)).symm
  rw [calls, run]
  simp [dataOffsetFun, dataOffsetBody, measureTree, firstOf, ofBody_eq, suffixed, hmalloc, hfree,
    run_malloc hbase, run_free hbase, Expr.runLast, paramScope, global?_cached,
    ownGlobal?_cached, hsample,
    hblock, hhome, h.wraps.size_block hwhole, h.fieldOf_payload hwhole,
    h.fieldOf_first hwhole, fieldAt,
    pointee, returned, Value.asPtr, Value.asInt, Scopes.bind, Expr.truth, Expr.lastType,
    known, measure,
    addressOf]
  refine bind_congr fun _ => bind_congr fun _ => bind_congr fun _ => bind_congr fun below => ?_
  cases below <;> simp

/-- A block is taken for the elements behind the distance, the number of owners in it set to zero,
the length stored and the elements copied to where the distance says. -/
theorem run_new :
    calls lib name elem m ops later (n + 3)
        (.own (newFun name (self lib name) (elemType lib name elem) elem)) [v] = (do
      let count ← lengthOf v
      let distance ← calls lib name elem m ops later (n + 2) (.own (dataOffsetFun name)) []
      let bytes ← Run.lift (BinaryOp.mul.apply count (.int (stride lib name elem).toInt64))
      let total ← Run.lift (BinaryOp.add.apply distance bytes)
      let addr ← allocate (requestedSize (← Run.lift total.asInt))
      let _ ← writeAt later.layouts .i64 (.ptr addr .i64) (.int 0)
      let _ ← writeAt later.layouts .u64 (.ptr (addr + 8) .u64) count
      let start ← strideBy 1 (.ptr addr .u8) distance
      let start ← Run.lift (start.cast (.ptr (elemType lib name elem)))
      let _ ← copyTo start v
      pure (Wraps.handleAt lib name addr (.struct (Wraps.blockRef lib name)))) := by
  have hwhole := find?_whole lib m ops
  have hmalloc :=
    fun again place u => ofTree_call (whole lib m ops).layouts later.layouts again place [u]
      (by decide) (by decide) h.function?_malloc
  have hop : BinaryOp.ofSymbol? (name ++ "_data_offset") = none := lookup_suffixed (by decide)
  have hform : Form.ofWord? (name ++ "_data_offset") = none := lookup_suffixed (by decide)
  have hcall :=
    fun again place => ofTree_call (whole lib m ops).layouts later.layouts again place
      [] hop hform h.function?_dataOffset
  have hmake := fun again place u => ofTree_make (scenery lib name elem m) (whole lib m ops).layouts
    later.layouts again place (word name) u h.typeOf_self
  have hblock : (scenery lib name elem m).typeOf (word (name ++ "_block")) =
    .struct (Wraps.blockRef lib name) := h.typeOf_block
  have hbyte : (scenery lib name elem m).typeOf (word "u8") = .u8 := rfl
  have hone : Ty.size (whole lib m ops).layouts .u8 = 1 := rfl
  rw [calls, run]
  simp [newFun, arrayNewBody, ofBody_eq, suffixed, hmalloc, hcall, hmake, run_malloc hbase,
    Expr.runLast, paramScope, Value.asPtr, hblock, hbyte, hone, h.typeOf_elem, h.size_elem,
    h.wraps.fieldOf_count hwhole, h.fieldOf_payload hwhole, h.fieldOf_length hwhole,
    fieldAt, pointee,
    returned, Scopes.bind, Expr.lastType]

end Runs

/-! ## Calls -/

include h

/-- **A call of an operation does what the operation means**, in every library that has both
modules. -/
theorem call_follows {later : Library}
    (hlater : later.find? (lib.push m).nextId = some ops) {f : Fun}
    (hf : f ∈ functions name (self lib name) (elemType lib name elem) elem) {depth n : Nat}
    (hlt : depth < n) (args : List Value) :
    Run.Follows Eq (ops.call later depth f.name args)
      (calls lib name elem m ops later n (.own f) args) := by
  obtain ⟨root, names, forms, hsettled, hspans⟩ := h.settled
  rw [← h.functions_eq] at hf
  obtain ⟨handle, hhandle, hmeaning⟩ := hsettled.handle_of_respan hspans hf
  rw [Module.call, hhandle]
  exact hmeaning later hlater depth n hlt args

/-- The functions of the module have the parameters and the results of the operations. -/
theorem signature {f : Fun}
    (hf : f ∈ functions name (self lib name) (elemType lib name elem) elem) :
    ∃ g ∈ ops.functions, g.name = f.name ∧ g.params = f.params ∧ g.result = f.result := by
  obtain ⟨root, names, forms, hsettled, hspans⟩ := h.settled
  rw [← h.functions_eq] at hf
  exact hsettled.function_of_respan hspans hf

end Indexed

end Kiln
