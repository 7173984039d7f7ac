import Kiln.Proofs.Machine.Following
import Kiln.Proofs.Memory.Access
import Kiln.Proofs.Memory.Encoding
import Kiln.Proofs.Source.Meaning
/-!
# Runs that use memory

What the steps of a run that read, write, take and give back memory end with, where they stay
inside one array of a sound heap. A run may always end because calls nest too deep or the heap is
exhausted (`Run.OutOfRoom`); a run that follows another ends as that does or so
(`Run.Follows.ok_or`).
-/

namespace Kiln

namespace Run

/-- The run ends because calls nest too deep, or because the heap's limit leaves no room. -/
def OutOfRoom {α : Type} (x : Run α) (s : Store) : Prop :=
  (∃ limit s', x s = .error (.fault (.tooDeep limit)) s') ∨
    ∃ e s', x s = .error (.halt (.exhausted e)) s'

variable {α β : Type} {x y : Run α} {f : α → Run β} {s s' : Store} {a : α}

/-- Steps that end well are run one after the other. -/
theorem bind_ok (h : x s = .ok a s') : (x >>= f) s = f a s' := by
  show EStateM.bind x f s = f a s'
  rw [EStateM.bind, h]

/-- A step that does not end well is the last. -/
theorem bind_error {e : Stop} (h : x s = .error e s') : (x >>= f) s = .error e s' := by
  show EStateM.bind x f s = .error e s'
  rw [EStateM.bind, h]

theorem updateHeap_ok {change : Heap → Except Fault Heap} {h : Heap}
    (hchange : change s.heap = .ok h) :
    updateHeap change s = .ok () { s with heap := h } := by
  show (lift (change s.heap) >>= fun h => set { s with heap := h }) s = _
  rw [hchange]
  rfl

theorem OutOfRoom.bind (h : x.OutOfRoom s) : (x >>= f).OutOfRoom s := by
  rcases h with ⟨limit, s', h⟩ | ⟨e, s', h⟩
  · exact .inl ⟨limit, s', bind_error h⟩
  · exact .inr ⟨e, s', bind_error h⟩

/-- A run that ends for lack of room gives nothing. -/
theorem OutOfRoom.ne_ok (h : x.OutOfRoom s) : x s ≠ .ok a s' := by
  rcases h with ⟨limit, s', h⟩ | ⟨e, s', h⟩
  all_goals
    rw [h]
    exact fun heq => by cases heq

theorem OutOfRoom.after (hx : x s = .ok a s') (h : (f a).OutOfRoom s') : (x >>= f).OutOfRoom s := by
  rwa [OutOfRoom, bind_ok hx]

theorem Follows.ok_or (h : Follows Eq x y) (hy : y s = .ok a s') :
    x.OutOfRoom s ∨ x s = .ok a s' := by
  have hend := h s
  rw [hy] at hend
  generalize hx : x s = ex at hend
  cases hend with
  | value heq => exact .inr (by rw [heq])
  | tooDeep => exact .inl (.inl ⟨_, _, hx⟩)

theorem Follows.outOfRoom (h : Follows Eq x y) (hy : y.OutOfRoom s) : x.OutOfRoom s := by
  have hend := h s
  rcases hy with ⟨limit, s', hy⟩ | ⟨e, s', hy⟩
  all_goals
    rw [hy] at hend
    generalize hx : x s = ex at hend
    cases hend with
    | stop => first | exact .inl ⟨_, _, hx⟩ | exact .inr ⟨_, _, hx⟩
    | tooDeep => exact .inl ⟨_, _, hx⟩

end Run

section Memory

variable {s : Store} {Γ : Layouts} {start : Nat} {array bytes : List UInt8} {addr : UInt64}
  {t target : Ty} {v : Value}

/-- A value is read off the bytes that spell it. -/
theorem readAt_of_read (hread : s.heap.read addr (t.size Γ) = .ok bytes)
    (hdecode : Value.decode Γ t bytes = .ok v) :
    Source.readAt Γ t (.ptr addr target) s = .ok v s := by
  show (Run.lift (s.heap.read addr (t.size Γ)) >>= fun bytes => Run.lift (Value.decode Γ t bytes))
    s = .ok v s
  rw [hread]
  show Run.lift (Value.decode Γ t _) s = .ok v s
  rw [hdecode]
  rfl

/-- **A value is read off the part of the array that spells it.** -/
theorem readAt_ok (hs : s.heap.Sound) (hmem : (start, array) ∈ s.heap.arrays)
    (hcov : Block.Covers ⟨start, array.length⟩ addr.toNat (t.size Γ).toNat)
    (hdecode : Value.decode Γ t (slice array (addr.toNat - start) (t.size Γ).toNat) = .ok v) :
    Source.readAt Γ t (.ptr addr target) s = .ok v s :=
  readAt_of_read (hs.read_array hmem hcov) hdecode

/-- What is written for a value are the bytes that spell it. -/
theorem writeAt_of_encode (hencode : v.encode Γ t = .ok bytes) :
    Source.writeAt Γ t (.ptr addr target) v =
      Run.updateHeap (·.write addr bytes) >>= fun _ => pure .unit := by
  have hrun : Source.writeAt Γ t (.ptr addr target) v = Run.lift (v.encode Γ t) >>= fun bytes =>
    Run.updateHeap (·.write addr bytes) >>= fun _ => pure .unit := rfl
  rw [hrun, hencode]
  rfl

theorem writeAt_of_write (hencode : v.encode Γ t = .ok bytes) {heap : Heap}
    (hwrite : s.heap.write addr bytes = .ok heap) :
    Source.writeAt Γ t (.ptr addr target) v s = .ok .unit { s with heap } := by
  rw [writeAt_of_encode hencode]
  exact Run.bind_ok (Run.updateHeap_ok hwrite)

/-- **A value is written over a part of the array.** -/
theorem writeAt_ok (hs : s.heap.Sound) (hmem : (start, array) ∈ s.heap.arrays)
    (hencode : v.encode Γ t = .ok bytes)
    (hcov : Block.Covers ⟨start, array.length⟩ addr.toNat bytes.length) :
    ∃ h', Source.writeAt Γ t (.ptr addr target) v s = .ok .unit { s with heap := h' } ∧ h'.Sound ∧
      h'.live = s.heap.live ∧
      h'.arrays = s.heap.arrays.update start (splice · (addr.toNat - start) bytes) := by
  obtain ⟨h', hwrite, hrest⟩ := hs.write_array hmem hcov
  exact ⟨h', writeAt_of_write hencode hwrite, hrest⟩

theorem allocate_of_error {size : UInt64} {e : Exhaustion} (h : s.heap.alloc size = .error e) :
    allocate size s = .error (.halt (.exhausted e)) s := by
  dsimp only [allocate, bind, EStateM.bind, get, getThe, MonadStateOf.get, EStateM.get]
  rw [h]
  rfl

theorem allocate_of_ok {size start : UInt64} {heap : Heap}
    (h : s.heap.alloc size = .ok (start, heap)) :
    allocate size s = .ok start { s with heap } := by
  dsimp only [allocate, bind, EStateM.bind, get, getThe, MonadStateOf.get, EStateM.get]
  rw [h]
  rfl

/-- **A block is taken**, or the heap is exhausted. -/
theorem allocate_ok (hs : s.heap.Sound) (size : UInt64) :
    (allocate size).OutOfRoom s ∨ ∃ addr h', allocate size s = .ok addr { s with heap := h' } ∧
      h'.Sound ∧ h'.live = ⟨addr.toNat, roundedSize size.toNat⟩ :: s.heap.live ∧
      h'.arrays = (addr.toNat, List.replicate (roundedSize size.toNat) 0) :: s.heap.arrays ∧
      ∀ e ∈ s.heap.arrays, e.1 ≠ addr.toNat := by
  rcases hs.alloc_array size with ⟨e, he⟩ | ⟨addr, h', ha, hrest⟩
  · exact .inl (.inr ⟨e, s, allocate_of_error he⟩)
  · exact .inr ⟨addr, h', allocate_of_ok ha, hrest⟩

/-- **A block is given back.** -/
theorem release_ok (hs : s.heap.Sound) (hmem : (addr.toNat, array) ∈ s.heap.arrays) :
    ∃ h', Run.updateHeap (·.release addr) s = .ok () { s with heap := h' } ∧ h'.Sound ∧
      h'.live = s.heap.live.filter (·.addr ≠ addr.toNat) ∧
      h'.arrays = s.heap.arrays.filter (·.1 ≠ addr.toNat) := by
  obtain ⟨h', hrelease, hrest⟩ := hs.release_array hmem
  exact ⟨h', Run.updateHeap_ok hrelease, hrest⟩

/-! ## Bytes outside of a block -/

section Confines

variable {s' : Store} {b : Block}

/-- A change of the heap that went well was one. -/
theorem Run.updateHeap_eq {change : Heap → Except Fault Heap}
    (h : Run.updateHeap change s = .ok () s') :
    ∃ heap, change s.heap = .ok heap ∧ s' = { s with heap } := by
  have hrun : (Run.lift (change s.heap) >>= fun heap => set { s with heap }) s = .ok () s' := h
  rcases hchange : change s.heap with e | heap
  · rw [hchange] at hrun
    cases hrun
  · rw [hchange] at hrun
    cases hrun
    exact ⟨heap, rfl, rfl⟩

theorem allocate_confines (hs : s.heap.Sound) {size : UInt64} (h : allocate size s = .ok addr s')
    (b : Block) : s.heap.Confines b s'.heap := by
  rcases halloc : s.heap.alloc size with e | ⟨start, heap⟩
  · rw [allocate_of_error halloc] at h
    cases h
  · rw [allocate_of_ok halloc] at h
    cases h
    exact hs.confines_alloc halloc b

theorem release_confines (h : Run.updateHeap (·.release addr) s = .ok () s') (b : Block) :
    s.heap.Confines b s'.heap := by
  obtain ⟨heap, hrelease, rfl⟩ := Run.updateHeap_eq h
  exact Heap.confines_release hrelease b

theorem write_confines (hs : s.heap.Sound) (hb : b ∈ s.heap.live)
    (hcov : b.Covers addr.toNat bytes.length)
    (h : Run.updateHeap (·.write addr bytes) s = .ok () s') : s.heap.Confines b s'.heap := by
  obtain ⟨heap, hwrite, rfl⟩ := Run.updateHeap_eq h
  exact hs.confines_write hb hcov hwrite

theorem writeAt_confines (hs : s.heap.Sound) (hb : b ∈ s.heap.live)
    (hencode : v.encode Γ t = .ok bytes) (hcov : b.Covers addr.toNat bytes.length) {w : Value}
    (h : Source.writeAt Γ t (.ptr addr target) v s = .ok w s') : s.heap.Confines b s'.heap := by
  rw [writeAt_of_encode hencode] at h
  rcases hwrite : Run.updateHeap (·.write addr bytes) s with ⟨⟨⟩, s₁⟩ | ⟨e, s₁⟩
  · have hdone := (Run.bind_ok hwrite).symm.trans h
    cases hdone
    exact write_confines hs hb hcov hwrite
  · have hfail : EStateM.bind (Run.updateHeap (·.write addr bytes)) (fun _ => pure Value.unit) s =
      .ok w s' := h
    rw [EStateM.bind, hwrite] at hfail
    cases hfail

end Confines

end Memory

end Kiln
