import Kiln.Machine.Eval
/-!
# Runs that end in an orderly way

A program may fail in many ways that it is free to bring about: it divides by zero, leaves the
heap, nests too deep. Three ways of ending are no business of a compiled program: to ask a struct
value for a field that it lacks, to call a function with too many or too few arguments, and to name
a slot, a global or a function that is not there. A run that ends in any other way is *orderly*.

`Run.Ends I Q x` says that a run keeps the invariant `I` of the store, that its value has the
property `Q`, and that it is orderly where it stops. `Run.Ends.bind` puts such runs together, and
the operations on values and the functions of the host are orderly one by one.
-/

namespace Kiln

/-- A fault that a compiled program may bring about. -/
def Fault.Orderly : Fault → Prop
  | .unknownField _ _ | .arity _ _ _ => False
  | _ => True

/-- An end that a compiled program may come to. -/
def Stop.Orderly : Stop → Prop
  | .fault f => f.Orderly
  | .halt h => h ≠ .stray

/-- The run that comes to an orderly fault ends in an orderly way. -/
theorem Fault.Orderly.stop {f : Fault} (hf : f.Orderly) : f.stop.Orderly := by
  cases f with
  | overrun | oversized => exact fun h => by cases h
  | _ => exact hf

/-! ## Computations without a store -/

variable {α β : Type}

/-- The value has the property `Q`, or the fault is orderly. -/
def Ends (Q : α → Prop) : Except Fault α → Prop
  | .ok a => Q a
  | .error f => f.Orderly

namespace Ends

variable {Q : α → Prop} {R : β → Prop}

theorem bind {x : Except Fault α} {k : α → Except Fault β} (hx : Ends Q x)
    (hk : ∀ a, Q a → Ends R (k a)) : Ends R (x >>= k) := by
  rcases x with f | a
  · exact hx
  · exact hk a hx

theorem map {x : Except Fault α} {k : α → β} (hx : Ends (fun a => R (k a)) x) :
    Ends R (x.map k) := by
  rcases x with f | a
  · exact hx
  · exact hx

/-- A result that is known to have the property, of a computation that is orderly. -/
theorem of_ok {x : Except Fault α} (hx : Ends (fun _ => True) x) (h : ∀ a, x = .ok a → Q a) :
    Ends Q x := by
  rcases x with f | a
  · exact hx
  · exact h a rfl

theorem mapM {xs : List α} {k : α → Except Fault β} (h : ∀ a ∈ xs, Ends (fun _ => True) (k a)) :
    Ends (fun _ => True) (xs.mapM k) := by
  induction xs with
  | nil => trivial
  | cons a xs ih =>
    rw [List.mapM_cons]
    refine (h a List.mem_cons_self).bind fun _ _ => ?_
    exact (ih fun b hb => h b (List.mem_cons_of_mem a hb)).bind fun _ _ => trivial

end Ends

/-! ## Runs -/

namespace Run

/-- From a store that has the invariant, the run ends in one that has it, with a value that has the
property or with an orderly stop. -/
def Ends (I : Store → Prop) (Q : α → Prop) (x : Run α) : Prop :=
  ∀ s, I s → match x s with
    | .ok a s' => I s' ∧ Q a
    | .error e s' => I s' ∧ e.Orderly

namespace Ends

variable {I : Store → Prop} {Q : α → Prop} {R : β → Prop}

theorem pure {a : α} (h : Q a) : Ends I Q (pure a) := fun _ hs => ⟨hs, h⟩

theorem throw {e : Stop} (h : e.Orderly) : Ends I Q (throw e) := fun _ hs => ⟨hs, h⟩

/-- **Runs that end in an orderly way follow each other.** -/
theorem bind {x : Run α} {k : α → Run β} (hx : Ends I Q x) (hk : ∀ a, Q a → Ends I R (k a)) :
    Ends I R (x >>= k) := by
  intro s hs
  have hstep := hx s hs
  show (match EStateM.bind x k s with
    | .ok b s' => I s' ∧ R b
    | .error e s' => I s' ∧ e.Orderly)
  unfold EStateM.bind
  rcases hxs : x s with ⟨a, s'⟩ | ⟨e, s'⟩
  · rw [hxs] at hstep
    exact hk a hstep.2 s' hstep.1
  · rw [hxs] at hstep
    exact hstep

theorem imp {Q' : α → Prop} {x : Run α} (hx : Ends I Q x) (h : ∀ a, Q a → Q' a) : Ends I Q' x := by
  intro s hs
  have hstep := hx s hs
  rcases hxs : x s with ⟨a, s'⟩ | ⟨e, s'⟩
  · rw [hxs] at hstep
    exact ⟨hstep.1, h a hstep.2⟩
  · rw [hxs] at hstep
    exact hstep

theorem lift {x : Except Fault α} (hx : Kiln.Ends Q x) : Ends I Q (Run.lift x) := by
  rcases x with f | a
  · exact throw (Fault.Orderly.stop hx)
  · exact pure hx

theorem present {x : Option α} {a : α} (hx : x = some a) (h : Q a) : Ends I Q (Run.present x) := by
  subst hx
  exact pure h

/-- A change of the store that keeps the invariant. -/
theorem modify {change : Store → Store} (h : ∀ s, I s → I (change s)) :
    Ends I (fun _ => True) (modify change : Run PUnit) := fun s hs => ⟨h s hs, trivial⟩

/-- A step that reads the store. -/
theorem get {k : Store → Run β} (hk : ∀ s, I s → Ends I R (k s)) : Ends I R (get >>= k) :=
  fun s hs => hk s hs s hs

end Ends

/-- An invariant that only speaks of the globals. -/
def OfGlobals (I : Store → Prop) : Prop := ∀ s s', s'.globals = s.globals → I s → I s'

namespace OfGlobals

variable {I : Store → Prop} (hI : OfGlobals I)

include hI

theorem updateHeap {change : Heap → Except Fault Heap}
    (h : ∀ heap, Kiln.Ends (fun _ => True) (change heap)) :
    Ends I (fun _ => True) (Run.updateHeap change) := by
  refine .get fun s hs => ?_
  refine (Ends.lift (h s.heap)).bind fun heap _ => ?_
  exact fun s' _ => ⟨hI s _ rfl hs, trivial⟩

theorem allocate (size : UInt64) : Ends I (fun _ => True) (Kiln.allocate size) := by
  refine .get fun s hs => ?_
  rcases s.heap.alloc size with e | ⟨addr, heap⟩
  · exact .throw (fun h : Halt.exhausted e = .stray => by cases h)
  · exact fun s' _ => ⟨hI s _ rfl hs, trivial⟩

end OfGlobals

end Run

/-! ## Operations on the heap -/

namespace Heap

variable (h : Heap) (addr len : UInt64)

theorem check_orderly : Ends (fun _ => True) (h.check addr len) := by
  unfold check
  split
  · trivial
  · trivial

theorem read_orderly : Ends (fun _ => True) (h.read addr len) := (h.check_orderly addr len).map

theorem write_orderly (bytes : List UInt8) : Ends (fun _ => True) (h.write addr bytes) :=
  (h.check_orderly addr _).map

theorem fill_orderly (byte : UInt8) : Ends (fun _ => True) (h.fill addr len byte) :=
  (h.check_orderly addr len).map

theorem copy_orderly (src : UInt64) : Ends (fun _ => True) (h.copy addr src len) := by
  unfold copy
  refine (h.check_orderly src len).bind fun _ _ => ?_
  exact (h.check_orderly addr len).bind fun _ _ => trivial

theorem release_orderly : Ends (fun _ => True) (h.release addr) := by
  unfold release
  split
  · trivial
  · trivial

end Heap

/-! ## Operations on values -/

theorem carve_orderly (bytes : List UInt8) (start size : Nat) :
    Ends (fun _ => True) (carve bytes start size) := by
  unfold carve
  split
  · trivial
  · trivial

namespace Value

variable (v : Value)

theorem asInt_orderly : Ends (fun _ => True) v.asInt := by cases v <;> trivial

theorem asBool_orderly : Ends (fun _ => True) v.asBool := by cases v <;> trivial

theorem asPtr_orderly : Ends (fun _ => True) v.asPtr := by cases v <;> trivial

theorem asSeq_orderly : Ends (fun _ => True) v.asSeq := by cases v <;> trivial

theorem asText_orderly : Ends (fun _ => True) v.asText := by cases v <;> trivial

theorem asAddress_orderly : Ends (fun _ => True) v.asAddress := by cases v <;> trivial

theorem equals_orderly (w : Value) : Ends (fun _ => True) (v.equals w) := by
  unfold equals
  split <;> trivial

variable (Γ : Layouts)

mutual

theorem encodeOver_orderly : ∀ (v : Value) (t : Ty) (bytes : List UInt8),
    Ends (fun _ => True) (v.encodeOver Γ t bytes)
  | .struct own fields, .struct ref, bytes => by
    rw [encodeOver]
    split
    · split
      · exact encodeFields_orderly fields _ bytes
      · trivial
    · trivial
  | .unit, t, _ | .bool _, t, _ | .int _, t, _ | .str _, t, _ | .ptr _ _, t,
      _ | .seq _ _ _, t, _ => by
    cases t <;> trivial
  | .struct _ _, .unit, _ | .struct _ _, .bool, _ | .struct _ _, .u8, _ | .struct _ _, .i64, _
  | .struct _ _, .u64, _ | .struct _ _, .str, _ | .struct _ _, .ptr _, _
  | .struct _ _, .seq _, _ => trivial

theorem encodeFields_orderly : ∀ (vs : List Value) (fs : List Field) (bytes : List UInt8),
    Ends (fun _ => True) (encodeFields Γ vs fs bytes)
  | [], _, _ => trivial
  | _ :: _, [], _ => trivial
  | v :: vs, f :: fs, bytes => by
    rw [encodeFields]
    refine (carve_orderly bytes _ _).bind fun place _ => ?_
    refine (encodeOver_orderly v f.type place).bind fun part _ => ?_
    exact encodeFields_orderly vs fs _

end

theorem encode_orderly (t : Ty) : Ends (fun _ => True) (v.encode Γ t) := by
  rw [encode]
  split
  · exact v.encodeOver_orderly Γ t _
  · trivial

theorem decodeWithin_orderly : ∀ (n : Nat) (t : Ty) (bytes : List UInt8),
    Ends (fun _ => True) (decodeWithin Γ n t bytes)
  | n + 1, .struct ref, bytes => by
    rw [decodeWithin]
    split
    · refine Ends.bind (Ends.mapM fun f _ => ?_) fun _ _ => trivial
      exact (carve_orderly bytes _ _).bind fun part _ => decodeWithin_orderly n f.type part
    · trivial
  | 0, .struct _, _ => trivial
  | n, .unit, _ | n, .str, _ | n, .seq _, _ => by cases n <;> trivial
  | n, .bool, bytes | n, .u8, bytes | n, .i64, bytes | n, .u64, bytes | n, .ptr _, bytes => by
    rw [decodeWithin]
    exact (carve_orderly bytes _ _).bind fun _ _ => trivial

end Value

end Kiln
