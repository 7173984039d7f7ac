import Kiln.Proofs.Memory.Contents
import Kiln.Proofs.Typing.Packing
import Mathlib.Algebra.Ring.Nat
/-!
# Values in memory and back

`stored` is what a value becomes when it is written as a type and read again: a `u8` keeps
its lowest eight bits, truth values and integers stand for each other, and so do integers
and pointers. Where the type fits memory and the value has one field for each field of the
type, decoding gives back what was encoded, as it was stored (`decode_encodeOver`). A value
that conforms to a type can always be encoded (`Conforms.encodeOver`).
-/

namespace Kiln

/-! ## Words -/

@[simp] theorem length_lowBytes : ∀ k n, (lowBytes k n).length = k
  | 0, _ => rfl
  | k + 1, n => by rw [lowBytes, List.length_cons, length_lowBytes k]

@[simp] theorem length_wordBytes (w : UInt64) : (wordBytes w).length = 8 := length_lowBytes 8 _

theorem bytesValue_lowBytes : ∀ k n, bytesValue (lowBytes k n) = n % 256 ^ k
  | 0, n => by rw [lowBytes, bytesValue, Nat.pow_zero, Nat.mod_one]
  | k + 1, n => by
    have hbyte : (UInt8.ofNat n).toNat = n % 256 := UInt8.toNat_ofNat'
    rw [lowBytes, bytesValue, bytesValue_lowBytes k, hbyte, Nat.pow_succ, Nat.mul_comm (256 ^ k),
      Nat.mod_mul]

/-- **The bytes of a word spell the word.** -/
@[simp] theorem wordOfBytes_wordBytes (w : UInt64) : wordOfBytes (wordBytes w) = w := by
  have htake : (wordBytes w).take 8 = wordBytes w :=
    List.take_of_length_le (Nat.le_of_eq (length_wordBytes w))
  have hlt : w.toNat < 256 ^ 8 := w.toNat_lt
  rw [wordOfBytes, htake, wordBytes, bytesValue_lowBytes, Nat.mod_eq_of_lt hlt, UInt64.ofNat_toNat]

namespace Value

variable (Γ : Layouts)

/-! ## Values of a type -/

mutual

/-- The value is one of the type, every struct in it being of the very type that is asked for with
one value for each field. -/
def Conforms : Value → Ty → Prop
  | .unit, .unit | .bool _, .bool | .str _, .str | .ptr _ _, .ptr _ => True
  | .int _, .u8 | .int _, .i64 | .int _, .u64 => True
  | .seq elem _ _, .seq t => elem = t
  | .struct own fields, .struct ref =>
    own = ref ∧ ∃ l, Γ.find? ref = some l ∧ ConformsAll fields (l.fields.map (·.type))
  | _, _ => False

/-- The same of each value of a list. -/
def ConformsAll : List Value → List Ty → Prop
  | [], [] => True
  | v :: vs, t :: ts => Conforms v t ∧ ConformsAll vs ts
  | _, _ => False

end

mutual

/-- Every struct in the value has one value for each field of the struct type it stands for. -/
def Full : Value → Ty → Prop
  | .struct _ fields,
      .struct ref => ∀ l, Γ.find? ref = some l → FullAll fields (l.fields.map (·.type))
  | _, _ => True

/-- The same of each value of a list. -/
def FullAll : List Value → List Ty → Prop
  | [], [] => True
  | v :: vs, t :: ts => Full v t ∧ FullAll vs ts
  | _, _ => False

end

mutual

/-- What a value becomes when it is stored as a type. -/
def stored : Value → Ty → Value
  | .int n, .u8 => .int (.ofNat (n.toUInt64.toNat % 256))
  | .int n, .bool => .bool (n != 0)
  | .int n, .ptr target => .ptr n.toUInt64 target
  | .bool b, .u8 | .bool b, .i64 | .bool b, .u64 => .int (if b then 1 else 0)
  | .ptr addr _, .ptr target => .ptr addr target
  | .struct own fields, .struct ref =>
    .struct own (storedAll fields (((Γ.find? ref).map fun l => l.fields.map (·.type)).getD []))
  | v, _ => v

/-- The same of each value of a list. -/
def storedAll : List Value → List Ty → List Value
  | v :: vs, t :: ts => stored v t :: storedAll vs ts
  | _, _ => []

end

variable {Γ} {v : Value} {t : Ty} {n : Nat} {place bytes : List UInt8}

mutual

theorem Conforms.full : ∀ {v : Value} {t : Ty}, Conforms Γ v t → Full Γ v t
  | .struct own fields, .struct ref, h => by
    obtain ⟨-, l, hl, hall⟩ := h
    intro l' hl'
    cases hl.symm.trans hl'
    exact hall.full
  | .struct _ _, .unit, _ | .struct _ _, .bool, _ | .struct _ _, .u8, _ | .struct _ _, .i64, _
  | .struct _ _, .u64, _ | .struct _ _, .str, _ | .struct _ _, .ptr _, _
  | .struct _ _, .seq _, _ => trivial
  | .unit, _, _ | .bool _, _, _ | .int _, _, _ | .str _, _, _ | .ptr _ _, _, _
  | .seq _ _ _, _, _ => trivial

theorem ConformsAll.full : ∀ {vs : List Value} {ts : List Ty}, ConformsAll Γ vs ts → FullAll Γ vs ts
  | [], [], _ => trivial
  | _ :: _, _ :: _, h => ⟨Conforms.full h.1, ConformsAll.full h.2⟩

end

/-! ## Scalars -/

/-- A byte keeps the lowest eight bits of an integer. -/
theorem byte_int (k : Int64) :
    k.toUInt64.toUInt8.toUInt64.toInt64 = .ofNat (k.toUInt64.toNat % 256) := by
  rw [← UInt64.toInt64_ofNat']
  congr 1
  refine UInt64.toNat_inj.1 ?_
  have hlt : k.toUInt64.toNat % 256 < UInt64.size :=
    Nat.lt_trans (Nat.mod_lt _ (by decide)) (by decide)
  rw [UInt8.toNat_toUInt64, UInt64.toNat_toUInt8, UInt64.toNat_ofNat_of_lt' hlt]

/-- The bytes of a word are all taken to read it. -/
theorem carve_wordBytes (w : UInt64) : carve (wordBytes w) 0 8 = .ok (wordBytes w) :=
  length_wordBytes w ▸ carve_self

/-- **What the bytes of a word are read as.** -/
theorem decodeWithin_wordBytes (w : UInt64) :
    decodeWithin Γ n .i64 (wordBytes w) = .ok (.int w.toInt64) ∧
    decodeWithin Γ n .u64 (wordBytes w) = .ok (.int w.toInt64) ∧
      ∀ target, decodeWithin Γ n (.ptr target) (wordBytes w) = .ok (.ptr w target) := by
  refine ⟨?_, ?_, fun target => ?_⟩
  · rw [decodeWithin, carve_wordBytes]
    exact congrArg (fun w : UInt64 => Except.ok (Value.int w.toInt64)) (wordOfBytes_wordBytes w)
  · rw [decodeWithin, carve_wordBytes]
    exact congrArg (fun w : UInt64 => Except.ok (Value.int w.toInt64)) (wordOfBytes_wordBytes w)
  · rw [decodeWithin, carve_wordBytes]
    exact congrArg (fun w : UInt64 => Except.ok (Value.ptr w target)) (wordOfBytes_wordBytes w)

/-- A value stored as anything but a struct. -/
theorem decode_encodeOver_scalar (ht : ∀ ref, t ≠ .struct ref) (hfits : t.Fits Γ n)
    (hplace : place.length = (t.size Γ).toNat) (henc : v.encodeOver Γ t place = .ok bytes) :
    bytes.length = (t.size Γ).toNat ∧ decodeWithin Γ n t bytes = .ok (stored Γ v t) := by
  cases t with
  | struct ref => exact absurd rfl (ht ref)
  | str | seq elem => cases hfits.isStorable
  | unit =>
    cases v <;> cases henc
    exact ⟨hplace, by rw [decodeWithin]; rfl⟩
  | bool =>
    cases v <;> cases henc
    · rename_i b
      refine ⟨rfl, ?_⟩
      rw [decodeWithin]
      cases b <;> rfl
    · rename_i k
      refine ⟨rfl, ?_⟩
      rw [decodeWithin, stored]
      cases k != 0 <;> rfl
  | u8 =>
    cases v <;> cases henc
    · rename_i b
      refine ⟨rfl, ?_⟩
      rw [decodeWithin]
      cases b <;> rfl
    · rename_i k
      refine ⟨rfl, ?_⟩
      rw [decodeWithin, stored, ← byte_int]
      rfl
  | i64 | u64 =>
    cases v <;> cases henc
    · rename_i b
      refine ⟨length_wordBytes _, ?_⟩
      first | rw [(decodeWithin_wordBytes _).1] | rw [(decodeWithin_wordBytes _).2.1]
      cases b <;> rfl
    · refine ⟨length_wordBytes _, ?_⟩
      first | exact (decodeWithin_wordBytes _).1 | exact (decodeWithin_wordBytes _).2.1
  | ptr target =>
    cases v <;> cases henc
    · exact ⟨length_wordBytes _, (decodeWithin_wordBytes _).2.2 target⟩
    · exact ⟨length_wordBytes _, (decodeWithin_wordBytes _).2.2 target⟩

/-- The value that a struct has in a field, by the bytes of the struct. -/
def decodeField (Γ : Layouts) (n : Nat) (bytes : List UInt8) (f : Field) : Except Fault Value := do
  decodeWithin Γ n f.type (← carve bytes f.offset.toNat (f.type.size Γ).toNat)

theorem decodeWithin_struct {ref : StructRef} {l : Layout} (hl : Γ.find? ref = some l) :
    decodeWithin Γ (n + 1) (.struct ref) bytes = (l.fields.mapM (decodeField Γ n bytes)).map
      (.struct ref) := by
  rw [decodeWithin, hl]
  rfl

theorem decodeField_ok {f : Field} (h : f.offset.toNat + (f.type.size Γ).toNat ≤ bytes.length) :
    decodeField Γ n bytes f =
      decodeWithin Γ n f.type (slice bytes f.offset.toNat (f.type.size Γ).toNat) := by
  rw [decodeField, carve_ok h]
  rfl

/-! ## Encoding and decoding -/

mutual

/-- **What was encoded decodes to what was stored**, and takes the room of its type. -/
theorem decode_encodeOver : ∀ {v : Value} {t : Ty} {n : Nat} {place bytes : List UInt8},
    t.Fits Γ n → place.length = (t.size Γ).toNat → Full Γ v t →
      v.encodeOver Γ t place = .ok bytes →
        bytes.length = (t.size Γ).toNat ∧ decodeWithin Γ n t bytes = .ok (stored Γ v t)
  | .struct own fields, t, n, place, bytes, hfits, hplace, hv, henc => by
    by_cases ht : ∃ ref, t = .struct ref
    · obtain ⟨ref, rfl⟩ := ht
      obtain ⟨l, n, hl, rfl, hpacked, hfields⟩ := hfits.struct
      have hall : FullAll Γ fields (l.fields.map (·.type)) := hv l hl
      rw [encodeOver] at henc
      split at henc
      · rename_i hown
        subst hown
        rw [hl] at henc
        have hsize : ((Ty.struct own).size Γ).toNat = l.size.toNat := by rw [Ty.size_struct hl]
        rw [hsize] at hplace ⊢
        obtain ⟨hlen, -, hdecode⟩ :=
          decode_encodeFields hpacked (Nat.le_of_eq hplace.symm) hfields hall henc
        refine ⟨hlen.trans hplace, ?_⟩
        rw [decodeWithin_struct hl, hdecode, stored, hl]
        rfl
      · cases henc
    · exact decode_encodeOver_scalar (fun ref href => ht ⟨ref, href⟩) hfits hplace henc
  | .unit, t, _, _, _, hfits, hplace, _, henc | .bool _, t, _, _, _, hfits, hplace, _, henc
  | .int _, t, _, _, _, hfits, hplace, _, henc | .str _, t, _, _, _, hfits, hplace, _, henc
  | .ptr _ _, t, _, _, _, hfits, hplace, _, henc
  | .seq _ _ _, t, _, _, _, hfits, hplace, _, henc => by
    by_cases ht : ∃ ref, t = .struct ref
    · obtain ⟨ref, rfl⟩ := ht
      cases henc
    · exact decode_encodeOver_scalar (fun ref href => ht ⟨ref, href⟩) hfits hplace henc

/-- Fields are encoded beside each other, and nothing before them changes. -/
theorem decode_encodeFields : ∀ {vs : List Value} {fs : List Field} {n start stop : Nat}
    {place bytes : List UInt8}, Layout.Packed Γ start fs stop → stop ≤ place.length →
      (∀ f ∈ fs, f.type.Fits Γ n) → FullAll Γ vs (fs.map (·.type)) →
        encodeFields Γ vs fs place = .ok bytes →
          bytes.length = place.length ∧
            (∀ addr len, addr + len ≤ start → slice bytes addr len = slice place addr len) ∧
            fs.mapM (decodeField Γ n bytes) = .ok (storedAll Γ vs (fs.map (·.type)))
  | [], [], n, start, stop, place, bytes, hpacked, hstop, hfits, hall, henc => by
    cases henc
    exact ⟨rfl, fun _ _ _ => rfl, rfl⟩
  | v :: vs, f :: fs, n, start, stop, place, bytes, hpacked, hstop, hfits, hall, henc => by
    obtain ⟨hstart, hrest⟩ := hpacked
    have hle := hrest.le
    rw [encodeFields, carve_ok (by omega)] at henc
    dsimp only [bind, Except.bind] at henc
    rcases hpart : v.encodeOver Γ f.type (slice place f.offset.toNat (f.type.size Γ).toNat) with
      e | part
    · rw [hpart] at henc
      cases henc
    · rw [hpart] at henc
      obtain ⟨hlen, hdecode⟩ := decode_encodeOver (hfits f List.mem_cons_self)
        (length_slice (by omega)) hall.1 hpart
      have hin : f.offset.toNat + part.length ≤ place.length := by omega
      have hsplice := length_splice hin
      obtain ⟨hlen', hbefore, hdecodes⟩ := decode_encodeFields hrest (by omega)
        (fun g hg => hfits g (List.mem_cons_of_mem f hg)) hall.2 henc
      refine ⟨hlen'.trans hsplice, fun addr len hlt => ?_, ?_⟩
      · rw [hbefore addr len (by omega), slice_splice_beside hin (.inl (by omega))]
      · -- the rest leaves the first field as it was written
        rw [List.mapM_cons, decodeField_ok (by omega), hbefore _ _ (Nat.le_refl _),
          slice_splice_self hlen (by omega), hdecode, hdecodes]
        rfl
  | [], _ :: _, _, _, _, _, _, _, _, _, hall, _ => hall.elim
  | _ :: _, [], _, _, _, _, _, _, _, _, hall, _ => hall.elim

end

mutual

/-- A value of a type that fits memory can be written over any bytes at its place. -/
theorem Conforms.encodeOver :
    ∀ {v : Value} {t : Ty} {n : Nat} {place : List UInt8}, Conforms Γ v t →
    t.Fits Γ n → place.length = (t.size Γ).toNat → ∃ bytes, v.encodeOver Γ t place = .ok bytes
  | .struct own fields, .struct ref, n, place, ⟨hown, l, hl, hall⟩, hfits, hplace => by
    obtain ⟨l', k, hl', rfl, hpacked, hfields⟩ := hfits.struct
    cases hl.symm.trans hl'
    have hsize : ((Ty.struct ref).size Γ).toNat = l.size.toNat := by rw [Ty.size_struct hl]
    rw [Value.encodeOver, if_pos hown, hl]
    exact hall.encodeFields hpacked (Nat.le_of_eq (hplace.trans hsize).symm) hfields
  | .unit, .unit, _, place, _, _, _ => ⟨_, rfl⟩
  | .bool _, .bool, _, _, _, _, _ => ⟨_, rfl⟩
  | .int _, .u8, _, _, _, _, _ | .int _, .i64, _, _, _, _, _ | .int _, .u64, _, _, _,
      _, _ => ⟨_, rfl⟩
  | .ptr _ _, .ptr _, _, _, _, _, _ => ⟨_, rfl⟩
  | .str _, .str, _, _, _, hfits, _ | .seq _ _ _, .seq _, _, _, _, hfits,
      _ => by cases hfits.isStorable

theorem ConformsAll.encodeFields : ∀ {vs : List Value} {fs : List Field} {n start stop : Nat}
    {place : List UInt8}, ConformsAll Γ vs (fs.map (·.type)) → Layout.Packed Γ start fs stop →
      stop ≤ place.length → (∀ f ∈ fs, f.type.Fits Γ n) →
        ∃ bytes, Value.encodeFields Γ vs fs place = .ok bytes
  | [], [], _, _, _, place, _, _, _, _ => ⟨place, rfl⟩
  | v :: vs, f :: fs, n, start, stop, place, ⟨hv, hvs⟩, ⟨hstart, hrest⟩, hstop, hfits => by
    have hle := hrest.le
    have hin : f.offset.toNat + (f.type.size Γ).toNat ≤ place.length := by omega
    obtain ⟨part, hpart⟩ := hv.encodeOver (hfits f List.mem_cons_self) (length_slice hin)
    obtain ⟨hlen, -⟩ :=
      decode_encodeOver (hfits f List.mem_cons_self) (length_slice hin) hv.full hpart
    have hsplice : (splice place f.offset.toNat part).length = place.length :=
      length_splice (by omega)
    obtain ⟨bytes, hbytes⟩ := hvs.encodeFields hrest (hsplice ▸ hstop)
      fun g hg => hfits g (List.mem_cons_of_mem f hg)
    refine ⟨bytes, ?_⟩
    rw [Value.encodeFields, carve_ok hin]
    dsimp only [bind, Except.bind]
    rw [hpart]
    exact hbytes

end

/-- Where a buffer has room, a value is written into one of zeros. -/
theorem encode_eq (h : (t.size Γ).toNat < bufferLimit) :
    v.encode Γ t = v.encodeOver Γ t (List.replicate (t.size Γ).toNat 0) := if_pos h

/-- **A value of a type that fits memory can be stored, and is read again as it was stored.** -/
theorem Conforms.encode (hv : Conforms Γ v t) (hfits : t.Fits Γ Γ.count) :
    ∃ bytes, v.encode Γ t = .ok bytes ∧ bytes.length = (t.size Γ).toNat ∧
      decode Γ t bytes = .ok (stored Γ v t) := by
  have hplace : (List.replicate (t.size Γ).toNat (0 : UInt8)).length = (t.size Γ).toNat :=
    List.length_replicate
  obtain ⟨bytes, hbytes⟩ := hv.encodeOver hfits hplace
  obtain ⟨hlen, hdecode⟩ := decode_encodeOver hfits hplace hv.full hbytes
  exact ⟨bytes, (encode_eq hfits.size_lt).trans hbytes, hlen, hdecode⟩

/-! ## Libraries that grow -/

section Growing

variable {Δ : Layouts}

/-- What bytes spell does not change when more structs have a layout, nor with more levels. -/
theorem decodeWithin_eq (hin : Γ.Within Δ) :
    ∀ {n k : Nat} {t : Ty} (bytes : List UInt8), t.Fits Γ n → n ≤ k →
    decodeWithin Δ k t bytes = decodeWithin Γ n t bytes
  | n, k, .struct ref, bytes, hfits, hle => by
    obtain ⟨l, n, hl, rfl, -, hfields⟩ := hfits.struct
    obtain ⟨k, rfl⟩ : ∃ j, k = j + 1 := ⟨k - 1, by omega⟩
    rw [decodeWithin_struct hl, decodeWithin_struct (hin ref l hl)]
    have hall : ∀ fs : List Field, (∀ f ∈ fs, f.type.Fits Γ n) →
        fs.mapM (decodeField Δ k bytes) = fs.mapM (decodeField Γ n bytes) := by
      intro fs
      induction fs with
      | nil => exact fun _ => rfl
      | cons f fs ih =>
        intro hfits
        have hf := hfits f List.mem_cons_self
        have hfield : decodeField Δ k bytes f = decodeField Γ n bytes f := by
          rw [decodeField, decodeField, hf.size_eq hin]
          exact congrArg _ (funext fun part => decodeWithin_eq hin part hf (by omega))
        rw [List.mapM_cons, List.mapM_cons, hfield,
          ih fun g hg => hfits g (List.mem_cons_of_mem f hg)]
    rw [hall l.fields hfields]
  | n, k, .unit, bytes, _, _ | n, k, .bool, bytes, _, _ | n, k, .u8, bytes, _, _
  | n, k, .i64, bytes, _, _ | n, k, .u64, bytes, _, _ | n, k, .str, bytes, _, _
  | n, k, .ptr _, bytes, _, _ | n, k, .seq _, bytes, _, _ => by
    cases n <;> cases k <;> rfl

/-- As many bytes as a type that fits memory takes spell a value of it. -/
theorem decodeWithin_ok : ∀ {n : Nat} {t : Ty} {bytes : List UInt8}, t.Fits Γ n →
    bytes.length = (t.size Γ).toNat → ∃ v, decodeWithin Γ n t bytes = .ok v
  | _, .struct ref, bytes, hfits, hlength => by
    obtain ⟨l, n, hl, rfl, hpacked, hfields⟩ := hfits.struct
    have hsize : ((Ty.struct ref).size Γ).toNat = l.size.toNat := by rw [Ty.size_struct hl]
    have hall :
        ∀ fs : List Field, fs ⊆ l.fields → ∃ vs, fs.mapM (decodeField Γ n bytes) = .ok vs := by
      intro fs
      induction fs with
      | nil => exact fun _ => ⟨[], rfl⟩
      | cons f fs ih =>
        intro hsub
        obtain ⟨hf, hsub⟩ := List.cons_subset.1 hsub
        have hin := Nat.le_trans (hpacked.of_mem hf).2 (Nat.le_of_eq (hlength.trans hsize).symm)
        obtain ⟨v, hv⟩ := decodeWithin_ok (hfields f hf) (length_slice hin)
        obtain ⟨vs, hvs⟩ := ih hsub
        rw [List.mapM_cons, decodeField_ok hin, hv, hvs]
        exact ⟨v :: vs, rfl⟩
    obtain ⟨vs, hvs⟩ := hall l.fields (List.Subset.refl _)
    rw [decodeWithin_struct hl, hvs]
    exact ⟨.struct ref vs, rfl⟩
  | n, .unit, _, _, _ => by cases n <;> exact ⟨_, rfl⟩
  | n, .bool, bytes, _, hlength | n, .u8, bytes, _, hlength => by
    have hin : 0 + 1 ≤ bytes.length := Nat.le_of_eq hlength.symm
    rw [decodeWithin, carve_ok hin]
    exact ⟨_, rfl⟩
  | n, .i64, bytes, _, hlength | n, .u64, bytes, _, hlength | n, .ptr _, bytes, _, hlength => by
    have hin : 0 + 8 ≤ bytes.length := Nat.le_of_eq hlength.symm
    rw [decodeWithin, carve_ok hin]
    exact ⟨_, rfl⟩
  | n, .str, _, hfits, _ | n, .seq _, _, hfits, _ => by cases hfits.isStorable

mutual

/-- What a value is stored as does not change either. -/
theorem stored_eq (hin : Γ.Within Δ) : ∀ {v : Value} {t : Ty} {n : Nat}, t.Fits Γ n →
    stored Δ v t = stored Γ v t
  | .struct own fields, .struct ref, n, hfits => by
    obtain ⟨l, n, hl, rfl, -, hfields⟩ := hfits.struct
    have hall : ∀ t ∈ l.fields.map (·.type), t.Fits Γ n := fun t ht => by
      obtain ⟨f, hf, rfl⟩ := List.mem_map.1 ht
      exact hfields f hf
    rw [stored, stored, hl, hin ref l hl, Option.map_some, Option.getD_some,
      storedAll_eq hin hall]
  | .struct _ _, .unit, _, _ | .struct _ _, .bool, _, _ | .struct _ _, .u8, _, _
  | .struct _ _, .i64, _, _ | .struct _ _, .u64, _, _ | .struct _ _, .str, _, _
  | .struct _ _, .ptr _, _, _ | .struct _ _, .seq _, _, _ => rfl
  | .unit, t, _, _ | .bool _, t, _, _ | .int _, t, _, _ | .str _, t, _, _ | .ptr _ _, t, _, _
  | .seq _ _ _, t, _, _ => by cases t <;> rfl

theorem storedAll_eq (hin : Γ.Within Δ) : ∀ {vs : List Value} {ts : List Ty} {n : Nat},
    (∀ t ∈ ts, t.Fits Γ n) → storedAll Δ vs ts = storedAll Γ vs ts
  | [], _, _, _ => rfl
  | _ :: _, [], _, _ => rfl
  | v :: vs, t :: ts, n, hfits => by
    rw [storedAll, storedAll, stored_eq hin (hfits t List.mem_cons_self),
      storedAll_eq hin fun u hu => hfits u (List.mem_cons_of_mem t hu)]

end

end Growing

end Value

end Kiln
