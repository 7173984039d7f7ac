import Kiln.Proofs.Typing.Standing
/-!
# Bytes as values and back

Any bytes that are as many as a type takes spell a value of it. Written again, the value gives the
same bytes but for those that say nothing: what lies between fields is zero, and a truth value is
zero or one. These are the *canonical* bytes (`Ty.canonical`). They are told byte by byte, by what
each is for (`Role`), and that writing gives them is an invariant of the fields written so far
(`encodeFields_decoded`). A type that fits memory therefore round-trips, both ways
(`Ty.Fits.roundTrips`).
-/

namespace Kiln

/-! ## Words -/

theorem bytesValue_lt : ∀ bytes : List UInt8, bytesValue bytes < 256 ^ bytes.length
  | [] => Nat.one_pos
  | b :: bytes => by
    have hrest := bytesValue_lt bytes
    have hbyte : b.toNat < 256 := b.toNat_lt
    rw [bytesValue, List.length_cons, Nat.pow_succ]
    omega

/-- What bytes spell has these lowest bytes. -/
theorem lowBytes_bytesValue : ∀ bytes : List UInt8, lowBytes bytes.length (bytesValue bytes) = bytes
  | [] => rfl
  | b :: bytes => by
    have hbyte : b.toNat < 256 := b.toNat_lt
    have hfirst : UInt8.ofNat (b.toNat + 256 * bytesValue bytes) = b := by
      refine UInt8.toNat_inj.1 ?_
      rw [UInt8.toNat_ofNat']
      omega
    have hrest : (b.toNat + 256 * bytesValue bytes) / 256 = bytesValue bytes := by omega
    rw [bytesValue, List.length_cons, lowBytes, hfirst, hrest, lowBytes_bytesValue bytes]

/-- **The word that eight bytes spell has these bytes.** -/
theorem wordBytes_wordOfBytes {bytes : List UInt8} (h : bytes.length = 8) :
    wordBytes (wordOfBytes bytes) = bytes := by
  have hlt : bytesValue bytes < UInt64.size := by
    have hlt := bytesValue_lt bytes
    rwa [h] at hlt
  rw [wordOfBytes, List.take_of_length_le (Nat.le_of_eq h), wordBytes,
    UInt64.toNat_ofNat_of_lt' hlt, ← h, lowBytes_bytesValue]

/-! ## Roles -/

/-- What a byte of a value is for. -/
inductive Role where
  /-- It lies between fields, or behind the last. -/
  | padding
  /-- It is a truth value. -/
  | truth
  /-- It is part of a number or of an address. -/
  | data
  deriving DecidableEq, Repr

/-- The byte without what its role does not tell. -/
def Role.settle : Role → UInt8 → UInt8
  | padding, _ => 0
  | truth, b => if b = 0 then 0 else 1
  | data, b => b

/-- The field that a byte of a struct belongs to. -/
def Layout.fieldOver? (Γ : Layouts) (fields : List Field) (i : Nat) : Option Field :=
  fields.find? fun f => f.offset.toNat ≤ i ∧ i < f.offset.toNat + (f.type.size Γ).toNat

namespace Ty

/-- The role of a byte among those of a type, where structs lie at most the given number of levels
inside each other. -/
def roleWithin (Γ : Layouts) : Nat → Ty → Nat → Role
  | _, .bool, _ => .truth
  | _, .u8, _ | _, .i64, _ | _, .u64, _ | _, .ptr _, _ => .data
  | n + 1, .struct ref, i =>
    match (Γ.find? ref).bind fun l => Layout.fieldOver? Γ l.fields i with
    | some f => roleWithin Γ n f.type (i - f.offset.toNat)
    | none => .padding
  | 0, .struct _, _ | _, .unit, _ | _, .str, _ | _, .seq _, _ => .padding

/-- Bytes of a type with each settled by its role. -/
def settleWithin (Γ : Layouts) (n : Nat) (t : Ty) (bytes : List UInt8) : List UInt8 :=
  bytes.mapIdx fun i b => (t.roleWithin Γ n i).settle b

/-- **The canonical bytes of a type**: padding is zero, and truth values are zero or one. -/
def canonical (Γ : Layouts) (t : Ty) (bytes : List UInt8) : List UInt8 :=
  t.settleWithin Γ Γ.count bytes

end Ty

variable {Γ : Layouts} {n : Nat} {t : Ty} {bytes place : List UInt8}

@[simp] theorem Ty.length_settleWithin : (t.settleWithin Γ n bytes).length = bytes.length :=
  List.length_mapIdx

theorem Ty.getElem?_settleWithin (i : Nat) :
    (t.settleWithin Γ n bytes)[i]? = bytes[i]?.map (t.roleWithin Γ n i).settle :=
    List.getElem?_mapIdx

/-- Bytes that are data stay as they are. -/
theorem Ty.settleWithin_data (h : ∀ i, t.roleWithin Γ n i = .data) :
    t.settleWithin Γ n bytes = bytes := by
  refine List.ext_getElem? fun i => ?_
  rw [getElem?_settleWithin, h]
  exact congrFun Option.map_id _

namespace Layout

variable {fields : List Field} {f : Field} {start stop i : Nat}

/-- No field is over a byte in front of all fields. -/
theorem Packed.fieldOver?_eq_none (h : Packed Γ start fields stop) (hi : i < start) :
    fieldOver? Γ fields i = none := by
  refine List.find?_eq_none.2 fun f hf hover => ?_
  have hstart := (h.of_mem hf).1
  have hin := of_decide_eq_true hover
  omega

theorem fieldOver?_cons_inside
    (hi : f.offset.toNat ≤ i ∧ i < f.offset.toNat + (f.type.size Γ).toNat) :
    fieldOver? Γ (f :: fields) i = some f := List.find?_cons_of_pos (decide_eq_true hi)

theorem fieldOver?_cons_outside
    (hi : ¬(f.offset.toNat ≤ i ∧ i < f.offset.toNat + (f.type.size Γ).toNat)) :
    fieldOver? Γ (f :: fields) i = fieldOver? Γ fields i :=
  List.find?_cons_of_neg (by rw [decide_eq_false hi]; exact Bool.false_ne_true)

/-- The role of a byte of a struct. -/
def roleOver (Γ : Layouts) (n : Nat) (fields : List Field) (i : Nat) : Role :=
  match fieldOver? Γ fields i with
  | some f => f.type.roleWithin Γ n (i - f.offset.toNat)
  | none => .padding

end Layout

theorem Ty.roleWithin_struct {ref : StructRef} {l : Layout} (hl : Γ.find? ref = some l) (i : Nat) :
    (Ty.struct ref).roleWithin Γ (n + 1) i = Layout.roleOver Γ n l.fields i := by
  rw [roleWithin, hl]
  rfl

namespace Value

/-! ## Encoding what was decoded -/

/-- Zeros have zeros for their slices. -/
theorem slice_zeros {start size : Nat} (hin : start + size ≤ place.length)
    (hzero : ∀ i, start ≤ i → i < place.length → place[i]? = some 0) :
    slice place start size = List.replicate size 0 := by
  refine List.ext_getElem? fun i => ?_
  rw [getElem?_slice, List.getElem?_replicate]
  split
  · rw [hzero (start + i) (Nat.le_add_right _ _) (by omega)]
  · rfl

/-- Zeros are what any bytes are settled to as padding. -/
theorem getElem?_padding {i : Nat} (hlength : place.length = bytes.length)
    (hzero : i < place.length → place[i]? = some 0) :
    place[i]? = bytes[i]?.map Role.padding.settle := by
  rcases Nat.lt_or_ge i place.length with hlt | hge
  · rw [hzero hlt, List.getElem?_eq_getElem (hlength ▸ hlt)]
    rfl
  · rw [List.getElem?_eq_none hge, List.getElem?_eq_none (hlength ▸ hge)]
    rfl

open Layout in
/-- **Writing the fields that were read settles every byte.** What is behind the fields written so
far is zero and belongs to none of them, so each field that is written settles its own bytes and
those in front of it. -/
theorem encodeFields_decoded :
    ∀ {fs : List Field} {vs : List Value} {start stop : Nat} {place : List UInt8},
    Packed Γ start fs stop → stop ≤ bytes.length → place.length = bytes.length →
    (∀ i, start ≤ i → i < place.length → place[i]? = some 0) →
    (∀ f ∈ fs,
      ∀ part v, part.length = (f.type.size Γ).toNat → decodeWithin Γ n f.type part = .ok v →
      v.encodeOver Γ f.type (List.replicate (f.type.size Γ).toNat 0) =
        .ok (f.type.settleWithin Γ n part)) →
    fs.mapM (decodeField Γ n bytes) = .ok vs →
      ∃ out, encodeFields Γ vs fs place = .ok out ∧ (∀ i < start, out[i]? = place[i]?) ∧
        ∀ i, start ≤ i → out[i]? = bytes[i]?.map (roleOver Γ n fs i).settle
  | [], vs, start, stop, place, _, _, hlength, hzero, _, hvs => by
    cases hvs
    exact ⟨place, rfl, fun _ _ => rfl, fun i hi => getElem?_padding hlength (hzero i hi)⟩
  | f :: fs, vs, start, stop, place, ⟨hstart, hrest⟩, hstop, hlength, hzero, hfield, hvs => by
    have hle := hrest.le
    have hin : f.offset.toNat + (f.type.size Γ).toNat ≤ bytes.length := by omega
    rw [List.mapM_cons, decodeField_ok hin] at hvs
    obtain ⟨v, hv, hvs⟩ := ok_of_bind hvs
    obtain ⟨ws, hws, hvs⟩ := ok_of_bind hvs
    cases hvs
    have hplace : f.offset.toNat + (f.type.size Γ).toNat ≤ place.length := hlength ▸ hin
    have hpart := hfield f List.mem_cons_self _ v (length_slice hin) hv
    rw [← slice_zeros hplace fun i hi => hzero i (Nat.le_trans hstart hi)] at hpart
    have hsize :
        (f.type.settleWithin Γ n (slice bytes f.offset.toNat (f.type.size Γ).toNat)).length =
        (f.type.size Γ).toNat := by rw [Ty.length_settleWithin, length_slice hin]
    generalize hsettled :
      f.type.settleWithin Γ n (slice bytes f.offset.toNat (f.type.size Γ).toNat) = part
      at hpart hsize
    -- the bytes beside the field are left as they were
    have hsplice : ∀ i, (splice place f.offset.toNat part)[i]? =
        if f.offset.toNat ≤ i ∧ i < f.offset.toNat + (f.type.size Γ).toNat then part[i -
          f.offset.toNat]?
          else place[i]? := fun i => hsize ▸ getElem?_splice (hsize ▸ hplace) i
    have hlength' : (splice place f.offset.toNat part).length = place.length :=
      length_splice (hsize ▸ hplace)
    obtain ⟨out, hout, hbefore, hafter⟩ := encodeFields_decoded hrest hstop (hlength'.trans hlength)
      (fun i hi hlt => by
        rw [hsplice, if_neg (by omega)]
        exact hzero i (by omega) (hlength' ▸ hlt))
      (fun g hg => hfield g (List.mem_cons_of_mem f hg)) hws
    refine ⟨out, ?_, fun i hi => ?_, fun i hi => ?_⟩
    · rw [encodeFields, carve_ok hplace]
      dsimp only [bind, Except.bind]
      rw [hpart]
      exact hout
    · rw [hbefore i (by omega), hsplice, if_neg (by omega)]
    · by_cases hover : f.offset.toNat ≤ i ∧ i < f.offset.toNat + (f.type.size Γ).toNat
      · rw [hbefore i hover.2, hsplice, if_pos hover, ← hsettled, Ty.getElem?_settleWithin,
          getElem?_slice, if_pos (by omega), Nat.add_sub_of_le hover.1, roleOver,
            fieldOver?_cons_inside hover]
      · rw [roleOver, fieldOver?_cons_outside hover]
        rcases Nat.lt_or_ge i f.offset.toNat with hlt | hge
        · rw [hbefore i (by omega), hsplice, if_neg hover, hrest.fieldOver?_eq_none (by omega)]
          exact getElem?_padding hlength (hzero i hi)
        · exact hafter i (by omega)

/-- **What bytes spell is written as these bytes, settled.** -/
theorem encodeOver_decoded : ∀ {n : Nat} {t : Ty} {bytes : List UInt8} {v : Value}, t.Fits Γ n →
    bytes.length = (t.size Γ).toNat → decodeWithin Γ n t bytes = .ok v →
      v.encodeOver Γ t (List.replicate (t.size Γ).toNat 0) = .ok (t.settleWithin Γ n bytes)
  | n, .struct ref, bytes, v, hfits, hlength, hv => by
    obtain ⟨l, n, hl, rfl, hpacked, hfields⟩ := hfits.struct
    have hsize : ((Ty.struct ref).size Γ).toNat = l.size.toNat := by rw [Ty.size_struct hl]
    rw [decodeWithin_struct hl] at hv
    obtain ⟨vs, hvs, rfl⟩ := ok_of_map hv
    rw [hsize] at hlength ⊢
    obtain ⟨out, hout, -, hsettled⟩ := encodeFields_decoded hpacked (Nat.le_of_eq hlength.symm)
      (List.length_replicate.trans hlength.symm)
      (fun i _ hi => by
        rw [List.length_replicate] at hi
        rw [List.getElem?_replicate, if_pos hi])
      (fun f hf part w hpart hw => encodeOver_decoded (hfields f hf) hpart hw) hvs
    rw [encodeOver, if_pos rfl, hl]
    refine hout.trans (congrArg _ (List.ext_getElem? fun i => ?_))
    rw [hsettled i (Nat.zero_le i), Ty.getElem?_settleWithin, Ty.roleWithin_struct hl]
  | n, .unit, bytes, v, _, hlength, hv => by
    obtain rfl := List.eq_nil_of_length_eq_zero hlength
    rw [decodeWithin] at hv
    cases hv
    rfl
  | n, .bool, bytes, v, _, hlength, hv => by
    obtain ⟨b, rfl⟩ := List.length_eq_one_iff.1 hlength
    rw [decodeWithin] at hv
    cases hv
    have hsettled : Ty.bool.settleWithin Γ n [b] = [Role.truth.settle b] := by
      rw [Ty.settleWithin, List.mapIdx_singleton, Ty.roleWithin]
    rw [hsettled, Role.settle]
    show Except.ok [if b != 0 then (1 : UInt8) else 0] = .ok [if b = 0 then 0 else 1]
    by_cases hb : b = 0
    · rw [if_pos hb, if_neg (by simpa using hb)]
    · rw [if_neg hb, if_pos (by simpa using hb)]
  | n, .u8, bytes, v, _, hlength, hv => by
    obtain ⟨b, rfl⟩ := List.length_eq_one_iff.1 hlength
    rw [decodeWithin] at hv
    cases hv
    rw [Ty.settleWithin_data fun _ => by rw [Ty.roleWithin]]
    show Except.ok [b.toUInt64.toInt64.toUInt64.toUInt8] = .ok [b]
    simp
  | n, .i64, bytes, v, _, hlength, hv | n, .u64, bytes, v, _, hlength, hv
  | n, .ptr _, bytes, v, _, hlength, hv => by
    rw [decodeWithin] at hv
    obtain ⟨part, hpart, hv⟩ := ok_of_bind hv
    obtain rfl : bytes = part := Except.ok.inj ((hlength ▸ carve_self).symm.trans hpart)
    cases hv
    rw [Ty.settleWithin_data fun _ => by rw [Ty.roleWithin]]
    exact congrArg Except.ok (wordBytes_wordOfBytes hlength)
  | n, .str, _, _, hfits, _, _ | n, .seq _, _, _, hfits, _, _ => by cases hfits.isStorable

/-! ## Decoding what was stored -/

mutual

/-- **What bytes spell is stored as it is.** -/
theorem stored_of_decoded : ∀ {n : Nat} {t : Ty} {bytes : List UInt8} {v : Value},
    decodeWithin Γ n t bytes = .ok v → stored Γ v t = v
  | n + 1, .struct ref, bytes, v, h => by
    rw [decodeWithin] at h
    split at h
    · rename_i l hl
      obtain ⟨vs, hvs, h⟩ := ok_of_bind h
      cases h
      rw [stored, hl]
      exact congrArg (Value.struct ref) (storedAll_of_decoded hvs)
    · cases h
  | n, .unit, bytes, v, h => by
    rw [decodeWithin] at h
    cases h
    rfl
  | n, .u8, bytes, v, h => by
    rw [decodeWithin] at h
    obtain ⟨part, -, h⟩ := ok_of_bind h
    cases h
    rw [stored, ← byte_int]
    simp
  | n, .bool, bytes, v, h | n, .i64, bytes, v, h | n, .u64, bytes, v, h | n, .ptr _,
      bytes, v, h => by
    rw [decodeWithin] at h
    obtain ⟨part, -, h⟩ := ok_of_bind h
    cases h
    rfl
  | n, .str, bytes, v, h | n, .seq _, bytes, v, h => by
    rw [decodeWithin] at h
    cases h
  | 0, .struct _, bytes, v, h => by cases h

theorem storedAll_of_decoded : ∀ {n : Nat} {fs : List Field} {bytes : List UInt8} {vs : List Value},
    fs.mapM (decodeField Γ n bytes) = .ok vs → storedAll Γ vs (fs.map (·.type)) = vs
  | n, [], bytes, vs, h => by
    cases h
    rfl
  | n, f :: fs, bytes, vs, h => by
    rw [List.mapM_cons] at h
    obtain ⟨v, hv, h⟩ := ok_of_bind h
    obtain ⟨part, -, hv⟩ := ok_of_bind hv
    obtain ⟨ws, hws, h⟩ := ok_of_bind h
    cases h
    rw [List.map_cons, storedAll, stored_of_decoded hv, storedAll_of_decoded hws]

end

/-! ## Encoding any value -/

/-- The result of a computation is right, or a value is not what it was taken for. -/
def Matches {α : Type} (Q : α → Prop) (x : Except Fault α) : Prop :=
  (∃ a, x = .ok a ∧ Q a) ∨ ∃ cause, x = .error (.mismatch cause)

theorem asInt_matches (v : Value) : Matches (fun _ => True) v.asInt := by
  cases v <;> first | exact .inl ⟨_, rfl, trivial⟩ | exact .inr ⟨_, rfl⟩

theorem asBool_matches (v : Value) : Matches (fun _ => True) v.asBool := by
  cases v <;> first | exact .inl ⟨_, rfl, trivial⟩ | exact .inr ⟨_, rfl⟩

theorem Matches.bind {α β : Type} {Q : α → Prop} {R : β → Prop} {x : Except Fault α}
    {k : α → Except Fault β} (hx : Matches Q x) (hk : ∀ a, Q a → Matches R (k a)) :
    Matches R (x >>= k) := by
  rcases hx with ⟨a, rfl, ha⟩ | ⟨cause, rfl⟩
  · exact hk a ha
  · exact .inr ⟨cause, rfl⟩

mutual

/-- **Writing a value of any kind ends with as many bytes as the type takes**, or with a
mismatch. -/
theorem encodeOver_matches : ∀ (v : Value) {t : Ty} {n : Nat} {place : List UInt8}, t.Fits Γ n →
    place.length = (t.size Γ).toNat →
      Matches (fun bytes => bytes.length = (t.size Γ).toNat) (v.encodeOver Γ t place)
  | .struct own fields, .struct ref, n, place, hfits, hplace => by
    obtain ⟨l, n, hl, rfl, hpacked, hfields⟩ := hfits.struct
    have hsize : ((Ty.struct ref).size Γ).toNat = l.size.toNat := by rw [Ty.size_struct hl]
    rw [encodeOver]
    split
    · rw [hl, ← hplace]
      exact encodeFields_matches fields hpacked (Nat.le_of_eq (hplace.trans hsize).symm) hfields
    · exact .inr ⟨_, rfl⟩
  | v, .unit, n, place, _, hplace => by
    cases v <;> first | exact .inl ⟨_, rfl, hplace⟩ | exact .inr ⟨_, rfl⟩
  | v, .bool, n, place, _, _ => by
    cases v <;> exact (asBool_matches _).bind fun _ _ => .inl ⟨_, rfl, rfl⟩
  | v, .u8, n, place, _, _ => by
    cases v <;> exact (asInt_matches _).bind fun _ _ => .inl ⟨_, rfl, rfl⟩
  | v, .i64, n, place, _, _ | v, .u64, n, place, _, _ => by
    cases v <;> exact (asInt_matches _).bind fun _ _ => .inl ⟨_, rfl, length_wordBytes _⟩
  | v, .ptr _, n, place, _, _ => by
    cases v <;> first | exact .inl ⟨_, rfl, length_wordBytes _⟩ | exact .inr ⟨_, rfl⟩
  | v, .str, n, place, hfits, _ | v, .seq _, n, place, hfits, _ => by cases hfits.isStorable
  | .unit, .struct _, _, _, _, _ | .bool _, .struct _, _, _, _, _ | .int _, .struct _, _, _, _, _
  | .str _, .struct _, _, _, _, _ | .ptr _ _, .struct _, _, _, _, _ | .seq _ _ _,
      .struct _, _, _, _, _ =>
    .inr ⟨_, rfl⟩

theorem encodeFields_matches :
    ∀ (vs : List Value) {fs : List Field} {n start stop : Nat} {place : List UInt8},
    Layout.Packed Γ start fs stop → stop ≤ place.length → (∀ f ∈ fs, f.type.Fits Γ n) →
      Matches (fun bytes => bytes.length = place.length) (encodeFields Γ vs fs place)
  | [], _, _, _, _, _, _, _, _ => .inl ⟨_, rfl, rfl⟩
  | _ :: _, [], _, _, _, _, _, _, _ => .inl ⟨_, rfl, rfl⟩
  | v :: vs, f :: fs, n, start, stop, place, ⟨hstart, hrest⟩, hstop, hfits => by
    have hle := hrest.le
    have hin : f.offset.toNat + (f.type.size Γ).toNat ≤ place.length := by omega
    rw [encodeFields, carve_ok hin]
    refine (encodeOver_matches v (hfits f List.mem_cons_self) (length_slice hin)).bind
      fun part hpart => ?_
    have hsplice : (splice place f.offset.toNat part).length = place.length :=
      length_splice (hpart ▸ hin)
    rw [← hsplice]
    exact encodeFields_matches vs hrest (hsplice ▸ hstop)
      fun g hg => hfits g (List.mem_cons_of_mem f hg)

end

/-- **Storing a value gives as many bytes as the type takes, or a mismatch**, if the type fits
memory. -/
theorem encode_matches (v : Value) {t : Ty} (hfits : t.Fits Γ Γ.count) :
    Matches (fun bytes => bytes.length = (t.size Γ).toNat) (v.encode Γ t) :=
  (encode_eq hfits.size_lt).symm ▸ encodeOver_matches v hfits List.length_replicate

end Value

/-- **Values are stored as the type and read again, and bytes are read as it and written again**,
with no loss but of what the type does not tell, and without ever asking a buffer for bytes that it
does not have. -/
structure Ty.RoundTrips (Γ : Layouts) (t : Ty) : Prop where
  /-- A value that has all its fields takes the room of the type, and is read as it was stored. -/
  stored : ∀ (v : Value) bytes, Value.Full Γ v t → v.encode Γ t = .ok bytes →
    bytes.length = (t.size Γ).toNat ∧ Value.decode Γ t bytes = .ok (Value.stored Γ v t)
  /-- Any bytes are a value, which has the canonical ones for its bytes. -/
  read : ∀ bytes, bytes.length = (t.size Γ).toNat → ∃ v, Value.decode Γ t bytes = .ok v ∧
    v.encode Γ t = .ok (t.canonical Γ bytes) ∧ Value.decode Γ t (t.canonical Γ bytes) = .ok v
  /-- A value that cannot be stored is not one of the type. -/
  faults : ∀ (v : Value) e, v.encode Γ t = .error e → ∃ cause, e = .mismatch cause

/-- **A type that fits memory round-trips.** -/
theorem Ty.Fits.roundTrips (hfits : t.Fits Γ Γ.count) : t.RoundTrips Γ where
  stored v bytes hfull henc := by
    rw [Value.encode_eq hfits.size_lt] at henc
    exact Value.decode_encodeOver hfits List.length_replicate hfull henc
  read bytes hlength := by
    obtain ⟨v, hv⟩ := Value.decodeWithin_ok hfits hlength
    have henc := Value.encodeOver_decoded hfits hlength hv
    have hfull := (Value.conforms_decodeWithin hv).full
    obtain ⟨-, hdecode⟩ := Value.decode_encodeOver hfits List.length_replicate hfull henc
    rw [Value.stored_of_decoded hv] at hdecode
    exact ⟨v, hv, (Value.encode_eq hfits.size_lt).trans henc, hdecode⟩
  faults v e henc := by
    rcases v.encode_matches hfits with ⟨bytes, hok, -⟩ | ⟨cause, herror⟩
    · cases henc.symm.trans hok
    · exact ⟨cause, Except.error.inj (henc.symm.trans herror)⟩

end Kiln
