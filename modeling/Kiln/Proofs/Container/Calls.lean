import Kiln.Proofs.Container.Books
import Kiln.Proofs.Container.Shape
import Kiln.Proofs.Container.Written
/-!
# What the functions of a wrapper do

Each function of a wrapper, as a run that names no variable any more (`run_new`,
`run_duplicate` and so on), and that a call of it on the machine follows (`Wraps.call`).
-/

namespace Kiln

open Blueprint Source

namespace Wraps

variable {lib : Library} {name : String} {inner payload : Tree} {m : Module}
  (h : Wraps lib name inner payload m)

/-- The type of a block. -/
abbrev blockRef (lib : Library) (name : String) : StructRef := ⟨lib.nextId, name ++ "_block"⟩

/-- The type of a handle. -/
abbrev selfRef (lib : Library) (name : String) : StructRef := ⟨lib.nextId, name⟩

section Fields

variable {later : Library} (hlater : later.find? lib.nextId = some m)

include h hlater

theorem fieldIndex_self :
    fieldIndex later.layouts (.struct (selfRef lib name)) (word "block") = 0 := by
  have hlayout := (find?_layouts hlater name).trans h.layout_self
  unfold fieldIndex layoutOf
  dsimp only
  rw [hlayout]
  rfl

theorem fieldOf_self :
    fieldOf later.layouts (.struct (selfRef lib name)) (word "block") =
      ⟨"block", .ptr (.struct (blockRef lib name)), 0⟩ := by
  have hlayout := (find?_layouts hlater name).trans h.layout_self
  rw [fieldOf, layoutOf, hlayout]
  rfl

theorem fieldOf_count :
    fieldOf later.layouts (.struct (blockRef lib name)) (word "count") = ⟨"count", .i64, 0⟩ := by
  have hlayout := (find?_layouts hlater (name ++ "_block")).trans h.layout_block
  rw [fieldOf, layoutOf, hlayout]
  rfl

theorem fieldOf_payload :
    fieldOf later.layouts (.struct (blockRef lib name)) (word "payload") =
      ⟨"payload", (scenery lib name inner payload).typeOf payload, 8⟩ := by
  have hlayout := (find?_layouts hlater (name ++ "_block")).trans h.layout_block
  rw [fieldOf, layoutOf, hlayout]
  rfl

theorem size_block :
    (Ty.struct (blockRef lib name)).size later.layouts = blockSize lib name inner payload m := by
  have hlayout := (find?_layouts hlater (name ++ "_block")).trans h.layout_block
  rw [Ty.size, hlayout]
  rfl

end Fields

/-! ## Runs -/

section Runs

variable {later : Library} (hbase : later.find? ⟨0⟩ = some Module.base) (n : Nat) (addr : UInt64)
  (t : Ty) (v : Value)

/-- A handle for the block at an address. -/
abbrev handleAt (lib : Library) (name : String) (addr : UInt64) (t : Ty) : Value :=
  .struct (selfRef lib name) [.ptr addr t]

include h

/-- The owners are one more than the number in the block. -/
theorem run_count :
    run (scenery lib name inner payload) (lib.push m).layouts later (n + 1)
        (.own (countFun name (.struct (selfRef lib name)))) [handleAt lib name addr t] = (do
      let c ← readAt later.layouts .i64 (.ptr addr .i64)
      Run.lift (BinaryOp.add.apply c (.int 1))) := by
  have hnow := find?_push_nextId lib m
  rw [run]
  simp [countFun, countBody, countOf, blockOf, ofBody_eq, Expr.runLast, paramScope, Value.fieldAt,
    fieldAt, pointee, h.fieldIndex_self hnow, h.fieldOf_self hnow, h.fieldOf_count hnow, returned,
    Value.asPtr]

/-- The payload starts at the eighth byte. -/
theorem run_deref (type : Ty) :
    run (scenery lib name inner payload) (lib.push m).layouts later (n + 1)
        (.own (derefFun name (.struct (selfRef lib name)) type)) [handleAt lib name addr t] =
      pure (.ptr (addr + 8) ((scenery lib name inner payload).typeOf payload)) := by
  have hnow := find?_push_nextId lib m
  rw [run]
  simp [derefFun, derefBody, blockOf, ofBody_eq, Expr.runLast, paramScope, Value.fieldAt, fieldAt,
    pointee, h.fieldIndex_self hnow, h.fieldOf_self hnow, h.fieldOf_payload hnow,
    returned, Value.asPtr]

/-- The number in the block goes up by one, and the handle comes back. -/
theorem run_duplicate :
    run (scenery lib name inner payload) (lib.push m).layouts later (n + 1)
        (.own (duplicateFun name (.struct (selfRef lib name)))) [handleAt lib name addr t] = (do
      let c ← readAt later.layouts .i64 (.ptr addr .i64)
      let more ← Run.lift (BinaryOp.add.apply c (.int 1))
      let _ ← writeAt later.layouts .i64 (.ptr addr .i64) more
      pure (handleAt lib name addr t)) := by
  have hmake := fun calls place u => ofTree_make (scenery lib name inner payload)
    (lib.push m).layouts later.layouts calls place (word name) u h.typeOf_self
  have hnow := find?_push_nextId lib m
  rw [run]
  simp [duplicateFun, duplicateBody, countOf, blockOf, ofBody_eq, hmake, Expr.runLast, paramScope,
    Value.fieldAt, fieldAt, pointee, h.fieldIndex_self hnow, h.fieldOf_self hnow,
    h.fieldOf_count hnow,
    returned, Value.asPtr, Scopes.bind]

include hbase

/-- A block is taken, the number in it set to zero and the payload stored. -/
theorem run_new (type : Ty) :
    run (scenery lib name inner payload) (lib.push m).layouts later (n + 2)
        (.own (newFun name (.struct (selfRef lib name)) type)) [v] = (do
      let addr ← allocate (requestedSize (blockSize lib name inner payload m).toInt64)
      let _ ← writeAt later.layouts .i64 (.ptr addr .i64) (.int 0)
      let _ ← writeAt later.layouts ((scenery lib name inner payload).typeOf payload)
        (.ptr (addr + 8) ((scenery lib name inner payload).typeOf payload)) v
      pure (handleAt lib name addr (.struct (blockRef lib name)))) := by
  have hmake := fun calls place u => ofTree_make (scenery lib name inner payload)
    (lib.push m).layouts later.layouts calls place (word name) u h.typeOf_self
  have hmalloc :=
    fun calls place u => ofTree_call (lib.push m).layouts later.layouts calls place [u] (by decide)
      (by decide) h.function?_malloc
  have hnow := find?_push_nextId lib m
  rw [run]
  simp [newFun, newBody, ofBody_eq, hmake, hmalloc, run_malloc hbase, Expr.runLast, paramScope,
    h.typeOf_block, h.size_block hnow, fieldAt, pointee, h.fieldOf_count hnow,
    h.fieldOf_payload hnow, returned, Value.asPtr, Value.asInt, Scopes.bind]

/-- The number in the block goes down by one, or the block is given back if it was zero. -/
theorem run_release :
    run (scenery lib name inner payload) (lib.push m).layouts later (n + 2)
        (.own (releaseFun name (.struct (selfRef lib name)))) [handleAt lib name addr t] = (do
      let c ← readAt later.layouts .i64 (.ptr addr .i64)
      let rest ← Run.lift (BinaryOp.sub.apply c (.int 1))
      let below ← Run.lift (BinaryOp.lt.apply rest (.int 0))
      if ← Run.lift below.asBool then do
        Run.updateHeap (·.release addr)
        pure .unit
      else writeAt later.layouts .i64 (.ptr addr .i64) rest) := by
  have hfree := fun calls place u => ofTree_call (lib.push m).layouts later.layouts calls place [u]
    (by decide) (by decide) h.function?_free
  have hnow := find?_push_nextId lib m
  rw [run]
  simp [releaseFun, releaseBody, blockOf, ofBody_eq, hfree, run_free hbase,
    Expr.runLast, paramScope, Value.fieldAt, fieldAt, pointee, h.fieldIndex_self hnow,
    h.fieldOf_self hnow, h.fieldOf_count hnow,
    returned, Value.asPtr, Scopes.bind, Expr.truth, Expr.lastType, branchType]
  refine bind_congr fun _ => bind_congr fun _ => bind_congr fun _ => bind_congr fun below => ?_
  cases below <;> simp

end Runs

/-! ## Calls -/

include h

/-- **A call of a function of a wrapper does what the function means**, in every library that has
the module. -/
theorem call_follows {later : Library} (hlater : later.find? lib.nextId = some m) {f : Fun}
    (hf : f ∈ functions name (.struct (selfRef lib name))
      ((scenery lib name inner payload).typeOf payload)) {depth n : Nat} (hlt : depth < n)
    (args : List Value) :
    Run.Follows Eq (m.call later depth f.name args)
      (run (scenery lib name inner payload) (lib.push m).layouts later n (.own f) args) := by
  obtain ⟨root, names, forms, hsettled, hspans⟩ := h.settled
  rw [← h.functions_eq] at hf
  obtain ⟨handle, hhandle, hmeaning⟩ := hsettled.handle_of_respan hspans hf
  rw [Module.call, hhandle]
  exact hmeaning later hlater depth n hlt args

/-- The functions of the module have the parameters and the results that the wrapper gives them. -/
theorem signature {f : Fun} (hf : f ∈ functions name (.struct (selfRef lib name))
      ((scenery lib name inner payload).typeOf payload)) :
    ∃ g ∈ m.functions, g.name = f.name ∧ g.params = f.params ∧ g.result = f.result := by
  obtain ⟨root, names, forms, hsettled, hspans⟩ := h.settled
  rw [← h.functions_eq] at hf
  exact hsettled.function_of_respan hspans hf

end Wraps

end Kiln
