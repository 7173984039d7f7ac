import Kiln.Proofs.Lowering.Inversion
import Kiln.Proofs.Machine.Orderly
import Kiln.Proofs.Memory.Encoding
/-!
# Values that stand for a type

A value behind a static type need not be of that type. A slot that nothing was assigned to holds
unit, whatever its type says; and an `if` whose branches do not agree is of type unit, whatever the
branch that runs gives. `Value.StandsFor` is what holds of values in spite of that: how far a value
may be from its type is said by a `Laxity`. With none of it, a value that stands for a type conforms
to it (`standsFor_strict_iff`).

The operations on values take values that stand for their types to such values
(`StandsFor.fieldAt`, `StandsFor.apply`, `StandsFor.cast`, `StandsFor.decode`).
-/

namespace Kiln

/-- How far values may be from their static types. -/
structure Laxity where
  /-- Unit stands for a value of any type: it is found in slots that nothing was assigned to. -/
  unset : Prop
  /-- Any value stands for unit: branches that do not agree give it. -/
  mixed : Prop

namespace Laxity

/-- Values are of their types. -/
def strict : Laxity := ⟨False, False⟩

/-- Unit stands for every value, and every value for unit. -/
def full : Laxity := ⟨True, True⟩

end Laxity

/-- The operator gives values of the type: numbers, or truth values. -/
def BinaryOp.Gives (op : BinaryOp) (t : Ty) : Prop :=
  if op.isArithmetic = true then t.isInteger = true else t = .bool

/-- A type in which unit is not found: it is not unit, nor is the type of a field of its values. -/
inductive Ty.Unitless (Γ : Layouts) : Ty → Prop
  | scalar {t : Ty} : t ≠ .unit → (∀ ref, t ≠ .struct ref) → Unitless Γ t
  | struct {ref : StructRef} {l : Layout} : Γ.find? ref = some l →
      (∀ f ∈ l.fields, Unitless Γ f.type) → Unitless Γ (.struct ref)

namespace Ty.Unitless

variable {Γ : Layouts}

theorem ne_unit (h : Ty.unit.Unitless Γ) : False := by
  cases h with
  | scalar hne _ => exact hne rfl

theorem of_mem {ref : StructRef} {l : Layout} (h : (Ty.struct ref).Unitless Γ)
    (hl : Γ.find? ref = some l) : ∀ t ∈ l.fields.map (·.type), t.Unitless Γ := by
  intro t ht
  obtain ⟨f, hf, rfl⟩ := List.mem_map.1 ht
  cases h with
  | scalar _ hne => exact (hne ref rfl).elim
  | struct hl' hall =>
    cases hl.symm.trans hl'
    exact hall f hf

end Ty.Unitless

namespace Value

variable (L : Laxity) (Γ : Layouts)

mutual

/-- The value may be found behind the static type. A struct is one of the very type, and each of its
fields may be found behind the type of the field. -/
def StandsFor : Value → Ty → Prop
  | .unit, t => t = .unit ∨ L.unset
  | .bool _, .bool | .str _, .str | .ptr _ _, .ptr _ => True
  | .int _, .u8 | .int _, .i64 | .int _, .u64 => True
  | .seq elem _ _, .seq t => elem = t
  | .struct own fields, .struct ref =>
    own = ref ∧ ∃ l, Γ.find? ref = some l ∧ AllStandFor fields (l.fields.map (·.type))
  | _, .unit => L.mixed
  | _, _ => False

/-- The same of each value of a list. -/
def AllStandFor : List Value → List Ty → Prop
  | [], [] => True
  | v :: vs, t :: ts => StandsFor v t ∧ AllStandFor vs ts
  | _, _ => False

end

variable {L Γ} {v w : Value} {t u : Ty}

/-! ## Conforming values -/

mutual

/-- A value that conforms to a type stands for it. -/
theorem Conforms.standsFor : ∀ {v : Value} {t : Ty}, Conforms Γ v t → StandsFor L Γ v t
  | .struct _ _, .struct _, ⟨hown, l, hl, hall⟩ => ⟨hown, l, hl, hall.allStandFor⟩
  | .unit, .unit, _ => .inl rfl
  | .bool _, .bool, _ | .str _, .str, _ | .ptr _ _, .ptr _, _ => trivial
  | .int _, .u8, _ | .int _, .i64, _ | .int _, .u64, _ => trivial
  | .seq _ _ _, .seq _, h => h

theorem ConformsAll.allStandFor : ∀ {vs : List Value} {ts : List Ty}, ConformsAll Γ vs ts →
    AllStandFor L Γ vs ts
  | [], [], _ => trivial
  | _ :: _, _ :: _, ⟨h, hs⟩ => ⟨h.standsFor, hs.allStandFor⟩

end

mutual

/-- **Values are of their types** where unit stands for no other value, and where every value stands
for unit if that is not found in the type. -/
theorem StandsFor.conforms_of (hset : ¬L.unset) : ∀ {v : Value} {t : Ty}, (L.mixed → t.Unitless Γ) →
    StandsFor L Γ v t → Conforms Γ v t
  | .struct _ _, .struct _, ht, ⟨hown, l, hl, hall⟩ =>
    ⟨hown, l, hl, hall.conforms_of hset fun hmixed t hmem => (ht hmixed).of_mem hl t hmem⟩
  | .unit, t, _, h => by
    obtain rfl : t = .unit := h.resolve_right hset
    trivial
  | .bool _, .bool, _, _ | .str _, .str, _, _ | .ptr _ _, .ptr _, _, _ => trivial
  | .int _, .u8, _, _ | .int _, .i64, _, _ | .int _, .u64, _, _ => trivial
  | .seq _ _ _, .seq _, _, h => h
  | .bool _, .unit, ht, h | .str _, .unit, ht, h | .ptr _ _, .unit, ht, h | .int _, .unit, ht, h
  | .seq _ _ _, .unit, ht, h | .struct _ _, .unit, ht, h => (ht h).ne_unit.elim

theorem AllStandFor.conforms_of (hset : ¬L.unset) : ∀ {vs : List Value} {ts : List Ty},
    (L.mixed → ∀ t ∈ ts, t.Unitless Γ) → AllStandFor L Γ vs ts → ConformsAll Γ vs ts
  | [], [], _, _ => trivial
  | _ :: _, _ :: _, ht, ⟨h, hs⟩ =>
    ⟨h.conforms_of hset fun hmixed => ht hmixed _ List.mem_cons_self,
      hs.conforms_of hset fun hmixed t hmem => ht hmixed t (List.mem_cons_of_mem _ hmem)⟩

end

/-- Where values have to be of their types, those that stand for a type conform to it. -/
theorem StandsFor.conforms (h : StandsFor .strict Γ v t) : Conforms Γ v t :=
  h.conforms_of id False.elim

/-! ## Laxity -/

/-- Unit stands for every value where slots may be read unassigned. -/
theorem standsFor_of_unset (h : L.unset) : StandsFor L Γ .unit t := .inr h

/-- Every value stands for unit where branches need not agree. -/
theorem standsFor_of_mixed (h : L.mixed) : StandsFor L Γ v .unit := by
  cases v with
  | unit => exact .inl rfl
  | _ => exact h

mutual

/-- Values stand for their types still when more structs have a layout. -/
theorem StandsFor.mono {Δ : Layouts} (hin : Γ.Within Δ) : ∀ {v : Value} {t : Ty},
    StandsFor L Γ v t → StandsFor L Δ v t
  | .struct _ _, .struct _, ⟨hown, l, hl, hall⟩ => ⟨hown, l, hin _ l hl, hall.mono hin⟩
  | .unit, _, h => h
  | .bool _, .bool, _ | .str _, .str, _ | .ptr _ _, .ptr _, _ => trivial
  | .int _, .u8, _ | .int _, .i64, _ | .int _, .u64, _ => trivial
  | .seq _ _ _, .seq _, h => h
  | .bool _, .unit, h | .str _, .unit, h | .ptr _ _, .unit, h | .int _, .unit, h
  | .seq _ _ _, .unit, h | .struct _ _, .unit, h => h

theorem AllStandFor.mono {Δ : Layouts} (hin : Γ.Within Δ) : ∀ {vs : List Value} {ts : List Ty},
    AllStandFor L Γ vs ts → AllStandFor L Δ vs ts
  | [], [], _ => trivial
  | _ :: _, _ :: _, ⟨h, hs⟩ => ⟨h.mono hin, hs.mono hin⟩

end

theorem AllStandFor.length_eq : ∀ {vs : List Value} {ts : List Ty}, AllStandFor L Γ vs ts →
    vs.length = ts.length
  | [], [], _ => rfl
  | _ :: _, _ :: _, ⟨_, hs⟩ => congrArg Nat.succ hs.length_eq

theorem AllStandFor.getElem? : ∀ {vs : List Value} {ts : List Ty}, AllStandFor L Γ vs ts →
    ∀ {i : Nat} {t : Ty}, ts[i]? = some t → ∃ v, vs[i]? = some v ∧ StandsFor L Γ v t
  | v :: _, _ :: _, ⟨h, _⟩, 0, t, ht => by
    cases ht
    exact ⟨v, rfl, h⟩
  | _ :: _, _ :: _, ⟨_, hs⟩, i + 1, t, ht => hs.getElem? ht
  | [], [], _, i, t, ht => by cases ht

/-! ## What is made of values -/

/-- A value of the one integer type stands for the other. -/
theorem StandsFor.integer (ht : t.isInteger = true) (hu : u.isInteger = true)
    (h : StandsFor L Γ v u) :
    StandsFor L Γ v t := by
  cases t <;> cases ht <;> cases u <;> cases hu <;> cases v <;>
    first | trivial | exact h.elim | exact .inr (h.resolve_left fun h => by cases h)

/-- A value may go where a value of the expected type has to. -/
theorem StandsFor.assign (ht : isAssignable t u = true) (h : StandsFor L Γ v u) :
    StandsFor L Γ v t := by
  unfold isAssignable at ht
  rw [Bool.or_eq_true, Bool.or_eq_true] at ht
  rcases ht with (heq | hint) | hptr
  · rw [of_decide_eq_true heq]
    exact h
  · rw [Bool.and_eq_true] at hint
    exact h.integer hint.1 hint.2
  · split at hptr
    · cases v with
      | unit => exact .inr (h.resolve_left fun h => by cases h)
      | ptr _ _ => trivial
      | _ => exact h.elim
    · cases hptr

/-- **A field that the struct type has is a field of the value**, unless unit stands for it. -/
theorem StandsFor.fieldAt {ref : StructRef} {l : Layout} {i : Nat} {f : Field}
    (h : StandsFor L Γ v (.struct ref)) (hl : Γ.find? ref = some l) (hf : l.fields[i]? = some f) :
    Ends (StandsFor L Γ · f.type) (v.fieldAt i) := by
  cases v with
  | struct own fields =>
    obtain ⟨rfl, l', hl', hall⟩ := h
    cases hl.symm.trans hl'
    obtain ⟨w, hw, hstands⟩ := hall.getElem? (by rw [List.getElem?_map, hf]; rfl)
    rw [Value.fieldAt, hw]
    exact hstands
  | unit => trivial
  | _ => exact h.elim

/-- **An operator between numbers gives a number**, and any other a truth value. -/
theorem apply_ends (op : BinaryOp) (v w : Value) (ht : op.Gives t) :
    Ends (StandsFor L Γ · t) (op.apply v w) := by
  have hcompute :
      ∀ op : BinaryOp, op.Gives t → ∀ a b : Int64, Ends (StandsFor L Γ · t) (op.compute a b) := by
    intro op ht a b
    have hint : t.isInteger = true → ∀ n : Int64, StandsFor L Γ (.int n) t := fun ht n => by
      cases t <;> cases ht <;> trivial
    have hquotient : t.isInteger = true → ∀ n : Int64, Ends (StandsFor L Γ · t)
        (if isDivisible a b then .ok (.int n) else .error divisionByZero) := fun ht n => by
      split
      · exact hint ht n
      · trivial
    cases op with
    | add | sub | mul => exact hint ht _
    | div | rem => exact hquotient ht _
    | _ =>
      subst ht
      trivial
  cases op with
  | eq | ne =>
    subst ht
    exact (v.equals_orderly w).bind fun _ _ => trivial
  | _ => exact v.asInt_orderly.bind fun a _ => w.asInt_orderly.bind fun b _ => hcompute _ ht a b

/-- A value that was taken for one of another type stands for that. -/
theorem StandsFor.cast (h : StandsFor L Γ v u) (hcast : isCastable u t = true) :
    Ends (StandsFor L Γ · t) (v.cast t) := by
  unfold Value.cast
  split <;> try trivial
  · -- a struct is taken for nothing but its own type
    rename_i own fields ref
    split
    · rename_i heq
      subst heq
      cases u with
      | struct ref' =>
        obtain ⟨rfl, hrest⟩ := h
        exact ⟨rfl, hrest⟩
      | unit => cases hcast
      | _ => exact h.elim
    · trivial
  · split
    · rename_i heq
      exact heq
    · trivial
  · exact .inl rfl

/-- **What bytes spell stands for the type that they were read as.** -/
theorem conforms_decodeWithin : ∀ {n : Nat} {t : Ty} {bytes : List UInt8} {v : Value},
    decodeWithin Γ n t bytes = .ok v → Conforms Γ v t
  | n + 1, .struct ref, bytes, v, h => by
    have hall : ∀ (fs : List Field) {vs : List Value}, fs.mapM (decodeField Γ n bytes) = .ok vs →
        ConformsAll Γ vs (fs.map (·.type)) := by
      intro fs
      induction fs with
      | nil =>
        intro vs hvs
        cases hvs
        trivial
      | cons f fs ih =>
        intro vs hvs
        rw [List.mapM_cons] at hvs
        obtain ⟨w, hw, hvs⟩ := ok_of_bind hvs
        obtain ⟨part, -, hw⟩ := ok_of_bind hw
        obtain ⟨ws, hws, hvs⟩ := ok_of_bind hvs
        cases hvs
        exact ⟨conforms_decodeWithin hw, ih hws⟩
    rw [decodeWithin] at h
    split at h
    · rename_i l hl
      obtain ⟨vs, hvs, h⟩ := ok_of_bind h
      cases h
      exact ⟨rfl, l, hl, hall _ hvs⟩
    · cases h
  | n, .unit, bytes, v, h => by cases n <;> cases h <;> trivial
  | n, .bool, bytes, v, h | n, .u8, bytes, v, h | n, .i64, bytes, v, h | n, .u64, bytes, v, h
  | n, .ptr _, bytes, v, h => by
    rw [decodeWithin] at h
    obtain ⟨part, -, h⟩ := ok_of_bind h
    cases h
    trivial
  | n, .str, bytes, v, h | n, .seq _, bytes, v, h => by cases n <;> cases h
  | 0, .struct _, bytes, v, h => by cases h

theorem decode_ends (bytes : List UInt8) : Ends (StandsFor L Γ · t) (decode Γ t bytes) :=
  Ends.of_ok (decodeWithin_orderly Γ _ t bytes) fun _ h => (conforms_decodeWithin h).standsFor

theorem ofItems_ends (items : List Value) :
    Ends (StandsFor L Γ · (.seq t)) (ofItems Γ t items) := by
  rw [ofItems]
  split
  · refine (Ends.mapM fun v _ => v.encode_orderly Γ t).bind fun parts _ => ?_
    exact (rfl : t = t)
  · trivial

end Value

/-! ## Zeros -/

/-- Structs of the type lie at most `n` levels inside each other, and each has a layout. -/
def Ty.Grounded (Γ : Layouts) : Nat → Ty → Prop
  | n + 1, .struct ref => ∃ l, Γ.find? ref = some l ∧ ∀ f ∈ l.fields, Grounded Γ n f.type
  | 0, .struct _ => False
  | _, _ => True

/-- Every struct that has a layout is grounded. -/
def Layouts.Grounded (Γ : Layouts) : Prop :=
  ∀ ref l, Γ.find? ref = some l → (Ty.struct ref).Grounded Γ Γ.count

/-- A type is grounded where every struct that has a layout is, and the type has one if it is a
struct. -/
theorem Layouts.Grounded.of_find? {Γ : Layouts} (h : Γ.Grounded) {t : Ty}
    (ht : ∀ ref, t = .struct ref → ∃ l, Γ.find? ref = some l) : t.Grounded Γ Γ.count := by
  cases t with
  | struct ref =>
    obtain ⟨l, hl⟩ := ht ref rfl
    exact h ref l hl
  | _ => cases Γ.count <;> trivial

theorem Ty.Grounded.struct {Γ : Layouts} : ∀ {n : Nat} {ref : StructRef},
    (Ty.struct ref).Grounded Γ n → ∃ l, Γ.find? ref = some l
  | _ + 1, _, ⟨l, hl, _⟩ => ⟨l, hl⟩

theorem Ty.Grounded.fields {Γ : Layouts} : ∀ {n : Nat} {ref : StructRef} {l : Layout},
    (Ty.struct ref).Grounded Γ n → Γ.find? ref = some l → ∃ k, ∀ f ∈ l.fields, f.type.Grounded Γ k
  | n + 1, _, _, ⟨_, hl, hfields⟩, hl' => by
    cases hl.symm.trans hl'
    exact ⟨n, hfields⟩

theorem Ty.Grounded.mono {Γ Δ : Layouts} (hin : Γ.Within Δ) : ∀ {n k : Nat} {t : Ty},
    t.Grounded Γ n → n ≤ k → t.Grounded Δ k
  | n + 1, k, .struct ref, ⟨l, hl, hfields⟩, hle => by
    obtain ⟨k, rfl⟩ : ∃ j, k = j + 1 := ⟨k - 1, by omega⟩
    exact ⟨l, hin ref l hl, fun f hf => (hfields f hf).mono hin (by omega)⟩
  | n, k, .unit, _, _ | n, k, .bool, _, _ | n, k, .u8, _, _ | n, k, .i64, _, _ | n, k, .u64, _, _
  | n, k, .str, _, _ | n, k, .ptr _, _, _ | n, k, .seq _, _, _ => by cases k <;> trivial

/-- The zeros of a type that is grounded are of that type. -/
theorem Value.conforms_zeroedWithin {Γ : Layouts} : ∀ {n : Nat} {t : Ty}, t.Grounded Γ n →
    Conforms Γ (zeroedWithin Γ n t) t
  | n + 1, .struct ref, ⟨l, hl, hfields⟩ => by
    have hall : ∀ fs : List Field, (∀ f ∈ fs, f.type.Grounded Γ n) →
        ConformsAll Γ (fs.map fun f => zeroedWithin Γ n f.type) (fs.map (·.type)) := by
      intro fs
      induction fs with
      | nil => exact fun _ => trivial
      | cons f fs ih =>
        intro h
        exact ⟨conforms_zeroedWithin (h f List.mem_cons_self),
          ih fun g hg => h g (List.mem_cons_of_mem f hg)⟩
    rw [zeroedWithin, hl]
    exact ⟨rfl, l, hl, hall l.fields hfields⟩
  | n, .unit, _ | n, .bool, _ | n, .u8, _ | n, .i64, _ | n, .u64, _ | n, .str, _ | n,
      .ptr _, _ => by
    cases n <;> trivial
  | n, .seq _, _ => by cases n <;> exact rfl

end Kiln
