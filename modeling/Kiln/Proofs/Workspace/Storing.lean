import Kiln.Proofs.Workspace.Layouts
/-!
# Values and bytes in used workspaces

Values are stored as a type and read again, and bytes are read as one and written again, as
`Ty.RoundTrips` says, for every type that can be stored and whose structs were laid out by
compiling, just if a buffer has room for its values (`Workspace.Used.round_trips_iff`). Nothing
keeps a struct from taking more than that. A value of it is not written, not even refused: the host
ends when it asks for the buffer (`round_trips_not_halfway`).
-/

namespace Kiln

/-- What a buffer has no room for is not written, whatever it is. -/
theorem Value.encode_oversized {Γ : Layouts} {t : Ty}
    (hsize : ¬(t.size Γ).toNat < bufferLimit) (v : Value) :
    v.encode Γ t = .error .oversized := if_neg hsize

/-- **Values and bytes stand for each other**, for each type that can be stored, in every used
workspace, just if a buffer has room for as many bytes as the type takes. -/
theorem Workspace.Used.round_trips_iff {w : Workspace} (h : w.Used) {t : Ty}
    (hstorable : t.isStorable = true)
    (hlaid : ∀ ref, t = .struct ref → ∃ l, w.library.layouts.find? ref = some l) :
    t.RoundTrips w.library.layouts ↔ (t.size w.library.layouts).toNat < bufferLimit := by
  constructor
  · intro hround
    by_contra hsize
    obtain ⟨cause, hcause⟩ := hround.faults .unit _ (Value.encode_oversized hsize .unit)
    cases hcause
  · intro hsize
    have hground : t.Grounded w.library.layouts _ := h.linked.grounded.of_find? hlaid
    exact (hground.fits h.regular hstorable hsize).roundTrips

/-- For a struct with padding, inside another and behind the field that holds it. -/
theorem Workspace.Used.round_trips_iff_line : ∃ m w, Workspace.afterUnit? lineUnit = some (m, w) ∧
    (Ty.struct ⟨m.id, "line"⟩).RoundTrips w.library.layouts := by
  obtain ⟨m, w, hafter, hcheck⟩ := Workspace.exists_afterUnit lineUnit
    (fun m w => (w.library.layouts.find? ⟨m.id, "line"⟩).isSome &&
      ((Ty.struct ⟨m.id, "line"⟩).size w.library.layouts).toNat < bufferLimit) (by decide +kernel)
  obtain ⟨hlaid, hsize⟩ := Bool.and_eq_true_iff.1 hcheck
  refine ⟨m, w, hafter,
    ((Reached.afterUnit hafter).used.round_trips_iff rfl ?_).2 (of_decide_eq_true hsize)⟩
  rintro ref ⟨⟩
  exact Option.isSome_iff_exists.1 hlaid

/-! ## A struct that is too large -/

/-- Letters, from one on. -/
def letters (first : Char) (count : Nat) : List String :=
  (List.range count).map fun i => String.singleton (.ofNat (first.toNat + i))

/-- Structs that go up in powers of eight. The struct `a` takes seven words, and each letter up to
`t` takes seven words behind eight of the letter before it, so that `t` takes one word less than
2^63 bytes. On top is one more. -/
def ladderUnit (top : Tree) : Tree :=
  let rung (struct : String) (fields : List Tree) : Tree :=
    .list (.word "struct" :: .word struct :: fields ++
      (letters 'i' 7).map fun field => .list [.word field, .word "i64"])
  let higher := ((letters 'a' 20).zip (letters 'a' 20).tail).map fun (inner, outer) =>
    rung outer ((letters 'a' 8).map fun field => .list [.word field, .word inner])
  .list (.word "do" :: rung "a" [] :: higher ++ [top])

/-- `(struct u (a t) (b i64))` -/
def halfway : Tree :=
  .list [.word "struct", .word "u", .list [.word "a", .word "t"], .list [.word "b", .word "i64"]]

/-- **A struct of 2^63 bytes is laid out and cannot be written**: of two parts that are no values of
its fields, which ought to be refused, it is not even seen that they are not. -/
theorem round_trips_not_halfway :
    ∃ m w, Workspace.afterUnit? (ladderUnit halfway) = some (m, w) ∧ w.Used ∧
    (Ty.struct ⟨m.id, "u"⟩).size w.library.layouts = 0x8000000000000000 ∧
      (Value.struct ⟨m.id, "u"⟩ [.unit, .unit]).encode w.library.layouts (.struct ⟨m.id, "u"⟩) =
      .error .oversized ∧
      ¬(Ty.struct ⟨m.id, "u"⟩).RoundTrips w.library.layouts := by
  obtain ⟨m, w, hafter, hcheck⟩ := Workspace.exists_afterUnit (ladderUnit halfway)
    (fun m w => (Ty.struct ⟨m.id, "u"⟩).size w.library.layouts == 0x8000000000000000)
    (by decide +kernel)
  have hsize := beq_iff_eq.1 hcheck
  have hroom : ¬((Ty.struct ⟨m.id, "u"⟩).size w.library.layouts).toNat < bufferLimit := by
    rw [hsize]
    decide
  refine ⟨m, w, hafter, (Reached.afterUnit hafter).used, hsize, Value.encode_oversized hroom _,
    fun hround => ?_⟩
  obtain ⟨cause, hcause⟩ := hround.faults .unit _ (Value.encode_oversized hroom .unit)
  cases hcause

end Kiln
