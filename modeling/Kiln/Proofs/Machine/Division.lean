import Kiln.Proofs.Machine.Memory
import Kiln.Proofs.Workspace.Calls
/-!
# Quotients and remainders

A quotient is rounded toward zero, and the remainder is what is left: times the divisor the one
makes up the number with the other, where all arithmetic wraps (`mul_div_add_mod`). That is so of
any two words, and so of all that the operators give. They do not give a quotient of all words:
beside that by zero they refuse that of the least word by minus one, which wraps like any other, and
tell the same of both (`BinaryOp.apply_eq_divisionByZero_iff`). Apart from these the forms `(/ a b)`
and `(% a b)` obey the laws of division (`Lowering.divides`).
-/

namespace Kiln

/-! ## Words -/

/-- **A quotient times the divisor, and the remainder, make up the number.** -/
theorem mul_div_add_mod (a b : Int64) : b * (a / b) + a % b = a := by
  have hexact : b.toInt * a.toInt.tdiv b.toInt + a.toInt.tmod b.toInt = a.toInt :=
    Int.mul_tdiv_add_tmod _ _
  rw [← Int64.toInt_inj, Int64.toInt_add, Int64.toInt_mul, Int64.toInt_div, Int64.toInt_mod,
    Int.mul_bmod_bmod, Int.bmod_add_bmod, hexact]
  exact a.toInt_bmod

/-- The remainder is smaller than the divisor. -/
theorem natAbs_mod_lt {a b : Int64} (hb : b ≠ 0) : (a % b).toInt.natAbs < b.toInt.natAbs := by
  have hne : b.toInt ≠ 0 := fun h => hb (Int64.toInt_inj.1 h)
  have hlt : a.toInt.natAbs % b.toInt.natAbs < b.toInt.natAbs := Nat.mod_lt _ (by omega)
  rwa [Int64.toInt_mod, Int.natAbs_tmod]

/-- There is a quotient by all numbers but zero, the least number by minus one apart. -/
theorem isDivisible_eq_false_iff {a b : Int64} :
    isDivisible a b = false ↔ b = 0 ∨ a = Int64.minValue ∧ b = -1 := by
  by_cases hb : b = 0 <;> simp [isDivisible, hb]

/-! ## Operators -/

namespace BinaryOp

variable {op : BinaryOp} {v w : Value} {a b : Int64}

/-- Operators that do not tell whether values are equal take them for numbers. -/
theorem apply_eq (hop : op.isEquality = false) (v w : Value) :
    op.apply v w = (v.asInt >>= fun a => w.asInt >>= fun b => op.compute a b) := by
  cases op
  case eq | ne => cases hop
  all_goals rfl

theorem equals_ne_divisionByZero (v w : Value) : v.equals w ≠ .error divisionByZero := by
  intro h
  unfold Value.equals at h
  split at h <;> cases h

theorem asInt_ne_divisionByZero (v : Value) : v.asInt ≠ .error divisionByZero := by
  intro h
  cases v <;> cases h

theorem compute_eq_divisionByZero_iff : op.compute a b = .error divisionByZero ↔
    (op = .div ∨ op = .rem) ∧ (b = 0 ∨ a = Int64.minValue ∧ b = -1) := by
  rw [← isDivisible_eq_false_iff]
  cases op <;> simp [compute]

/-- **Nothing but a quotient or a remainder is refused as a division by zero**, and these for two
reasons. -/
theorem apply_eq_divisionByZero_iff : op.apply v w = .error divisionByZero ↔
    ∃ a b, v.asInt = .ok a ∧ w.asInt = .ok b ∧ (op = .div ∨ op = .rem) ∧
      (b = 0 ∨ a = Int64.minValue ∧ b = -1) := by
  by_cases hop : op.isEquality = true
  · -- a comparison does not take its operands for numbers
    have hno : op.apply v w ≠ .error divisionByZero := by
      intro h
      cases op
      case eq | ne =>
        rcases error_of_bind h with h | ⟨_, -, h⟩
        · exact equals_ne_divisionByZero v w h
        · cases h
      all_goals cases hop
    refine iff_of_false hno ?_
    rintro ⟨_, _, -, -, rfl | rfl, -⟩ <;> cases hop
  · rw [apply_eq (Bool.eq_false_iff.2 hop)]
    constructor
    · intro h
      rcases error_of_bind h with hv | ⟨a, hv, h⟩
      · exact absurd hv (asInt_ne_divisionByZero v)
      rcases error_of_bind h with hw | ⟨b, hw, h⟩
      · exact absurd hw (asInt_ne_divisionByZero w)
      · exact ⟨a, b, hv, hw, compute_eq_divisionByZero_iff.1 h⟩
    · rintro ⟨a, b, hv, hw, h⟩
      rw [bind_of_ok hv, bind_of_ok hw]
      exact compute_eq_divisionByZero_iff.2 h

end BinaryOp

/-! ## Code -/

section Evaluation

variable {lib : Library} {depth : Nat} {home : ModuleId} {left right : Code} {fr fr₁ fr₂ : Frame}
  {s s₁ s₂ : Store} {v w : Value}

/-- An operator is applied to what its operands come to, the left one first. -/
theorem eval_binary (op : BinaryOp) (hleft : eval lib depth home left fr s = .ok (v, fr₁) s₁)
    (hright : eval lib depth home right fr₁ s₁ = .ok (w, fr₂) s₂) :
    eval lib (depth + 1) home (.binary op left right) fr s =
      (Run.lift (op.apply v w) >>= fun u => pure (u, fr₂)) s₂ := by
  rw [eval]
  exact (Run.bind_ok hleft).trans (Run.bind_ok hright)

theorem eval_binary_ok {op : BinaryOp} {u : Value}
    (hleft : eval lib depth home left fr s = .ok (v, fr₁) s₁)
    (hright : eval lib depth home right fr₁ s₁ = .ok (w, fr₂) s₂) (h : op.apply v w = .ok u) :
    eval lib (depth + 1) home (.binary op left right) fr s = .ok (u, fr₂) s₂ := by
  rw [eval_binary op hleft hright, h]
  rfl

/-- It panics over a division by zero just if the operator does. -/
theorem eval_binary_panics_iff {op : BinaryOp}
    (hleft : eval lib depth home left fr s = .ok (v, fr₁) s₁)
    (hright : eval lib depth home right fr₁ s₁ = .ok (w, fr₂) s₂) :
    eval lib (depth + 1) home (.binary op left right) fr s = .error (.fault divisionByZero) s₂ ↔
      op.apply v w = .error divisionByZero := by
  rw [eval_binary op hleft hright]
  constructor
  · intro h
    rcases hresult : op.apply v w with f | u
    · rw [hresult] at h
      have hstop : f.stop = .fault divisionByZero := (EStateM.Result.error.inj h).1
      cases f <;> cases hstop
      rfl
    · rw [hresult] at h
      cases h
  · intro h
    rw [h]
    rfl

end Evaluation

/-- The laws of division, of code for the quotient and the remainder of two operands, where the
operands come to numbers. -/
structure Code.Divides (lib : Library) (quotient remainder left right : Code) : Prop where
  /-- By any number but zero there are both, the least number by minus one apart. The quotient times
  the divisor and the remainder make up the number, as the operators compute, and the remainder is
  smaller than the divisor. -/
  restores : ∀ {depth : Nat} {home : ModuleId} {fr fr₁ fr₂ : Frame} {s s₁ s₂ : Store} {a b : Int64},
    eval lib depth home left fr s = .ok (.int a, fr₁) s₁ →
      eval lib depth home right fr₁ s₁ = .ok (.int b, fr₂) s₂ →
      b ≠ 0 → ¬(a = Int64.minValue ∧ b = -1) → ∃ q r product,
        eval lib (depth + 1) home quotient fr s = .ok (.int q, fr₂) s₂ ∧
        eval lib (depth + 1) home remainder fr s = .ok (.int r, fr₂) s₂ ∧
        BinaryOp.mul.apply (.int b) (.int q) = .ok (.int product) ∧
        BinaryOp.add.apply (.int product) (.int r) = .ok (.int a) ∧ r.toInt.natAbs < b.toInt.natAbs
  /-- Either panics over a division by zero just if the divisor is zero, or minus one and the number
  the least. -/
  panics : ∀ {depth : Nat} {home : ModuleId} {fr fr₁ fr₂ : Frame} {s s₁ s₂ : Store} {a b : Int64},
    eval lib depth home left fr s = .ok (.int a, fr₁) s₁ →
      eval lib depth home right fr₁ s₁ = .ok (.int b, fr₂) s₂ →
      ∀ code, code = quotient ∨ code = remainder →
        (eval lib (depth + 1) home code fr s = .error (.fault (.panic "division by zero")) s₂ ↔
          b = 0 ∨ a = Int64.minValue ∧ b = -1)

/-- The two operators obey the laws of division. -/
theorem Code.divides_binary (lib : Library) (left right : Code) :
    Code.Divides lib (.binary .div left right) (.binary .rem left right) left right := by
  constructor
  · intro depth home fr fr₁ fr₂ s s₁ s₂ a b hleft hright hb hfits
    have hdivisible : isDivisible a b = true := by
      rw [← Bool.not_eq_false, isDivisible_eq_false_iff]
      exact not_or.2 ⟨hb, hfits⟩
    have hquotient : BinaryOp.div.apply (.int a) (.int b) = .ok (.int (a / b)) := if_pos hdivisible
    have hremainder : BinaryOp.rem.apply (.int a) (.int b) = .ok (.int (a % b)) := if_pos hdivisible
    have hsum : BinaryOp.add.apply (.int (b * (a / b))) (.int (a % b)) =
        .ok (.int (b * (a / b) + a % b)) := rfl
    rw [mul_div_add_mod] at hsum
    exact ⟨a / b, a % b, b * (a / b), eval_binary_ok hleft hright hquotient,
      eval_binary_ok hleft hright hremainder, rfl, hsum, natAbs_mod_lt hb⟩
  · intro depth home fr fr₁ fr₂ s s₁ s₂ a b hleft hright code hcode
    have hpanics :
        ∀ op : BinaryOp, op = .div ∨ op = .rem →
          (eval lib (depth + 1) home (.binary op left right) fr s =
            .error (.fault divisionByZero) s₂ ↔ b = 0 ∨ a = Int64.minValue ∧ b = -1) := by
      intro op hop
      rw [eval_binary_panics_iff hleft hright, BinaryOp.apply_eq_divisionByZero_iff]
      constructor
      · rintro ⟨_, _, ⟨⟩, ⟨⟩, -, h⟩
        exact h
      · exact fun h => ⟨a, b, rfl, rfl, hop, h⟩
    rcases hcode with rfl | rfl
    · exact hpanics .div (.inl rfl)
    · exact hpanics .rem (.inr rfl)

/-! ## Forms -/

namespace Lowering

variable {names : Names} {left right : Tree} {s₀ s : Span} {ls ls' : Locals} {word : String}
  {op : BinaryOp}

/-- An operator between two trees. -/
theorem ofTree_operator (hword : BinaryOp.ofSymbol? word = some op) :
    ofTree names (.node [.leaf (.sym word) s₀, left, right] s) =
      binary op [operand names left, operand names right] s := by
  rw [ofTree, Tree.fold, Tree.foldAll_eq_map]
  simp only [List.map_cons, List.map_nil, ofItems, Tree.symbol?, hword]
  rfl

/-- **Arithmetic is accepted just if its operands come to numbers**, and is of the type of the left
one. -/
theorem arithmetic_ok_iff {code : Code} {type : Ty} (hop : op.isArithmetic = true)
    (hword : BinaryOp.ofSymbol? word = some op) :
    ofTree names (.node [.leaf (.sym word) s₀, left, right] s) ls = .ok ((code, type), ls') ↔
      ∃ l r t ls₁, ofTree names left ls = .ok ((l, type), ls₁) ∧
        ofTree names right ls₁ = .ok ((r, t), ls') ∧
        type.isInteger = true ∧ t.isInteger = true ∧ code = .binary op l r := by
  have hnot : op.isEquality = false := by cases op <;> first | rfl | cases hop
  rw [ofTree_operator hword]
  constructor
  · intro h
    obtain ⟨⟨⟨l, t⟩, ls₁⟩, hleft, h⟩ := ok_of_bind h
    obtain ⟨⟨⟨r, t'⟩, ls₂⟩, hright, h⟩ := ok_of_bind h
    dsimp only at h
    rw [hnot] at h
    by_cases ht : t.isInteger = true
    · by_cases ht' : t'.isInteger = true
      · simp only [ht, ht', hop] at h
        cases h
        exact ⟨l, r, t', ls₁, hleft, hright, ht, ht', rfl⟩
      · simp only [ht, ht'] at h
        cases h
    · simp only [ht] at h
      cases h
  · rintro ⟨l, r, t, ls₁, hleft, hright, htype, ht, rfl⟩
    refine (bind_of_ok hleft _).trans ((bind_of_ok hright _).trans ?_)
    dsimp only
    rw [hnot, htype, ht, hop]
    rfl

/-- **Where a quotient is accepted so is the remainder, and the two obey the laws of division**:
whatever numbers the operands come to, by any but zero they are there and make up the number that
was divided, the least number by minus one apart, and only where they are not there is a division by
zero reported. -/
theorem divides {quotient : Code} {type : Ty}
    (h : ofTree names (.node [.leaf (.sym "/") s₀, left, right] s) ls =
      .ok ((quotient, type), ls')) :
    ∃ remainder l r t ls₁,
      ofTree names (.node [.leaf (.sym "%") s₀, left, right] s) ls = .ok ((remainder, type), ls') ∧
        ofTree names left ls = .ok ((l, type), ls₁) ∧ ofTree names right ls₁ = .ok ((r, t), ls') ∧
          ∀ lib, Code.Divides lib quotient remainder l r := by
  have hdiv : BinaryOp.ofSymbol? "/" = some .div := rfl
  have hrem : BinaryOp.ofSymbol? "%" = some .rem := rfl
  obtain ⟨l, r, t, ls₁, hleft, hright, htype, ht, rfl⟩ := (arithmetic_ok_iff rfl hdiv).1 h
  refine ⟨.binary .rem l r, l, r, t, ls₁, ?_, hleft, hright, fun lib => Code.divides_binary lib l r⟩
  exact (arithmetic_ok_iff rfl hrem).2 ⟨l, r, t, ls₁, hleft, hright, htype, ht, rfl⟩

/-- Seven by minus two, as two variables have it. -/
theorem divides_seven :
    let names : Names := ⟨⟨1⟩, [], .none, [], [], []⟩
    let ls : Locals := (Locals.empty.declare "a" .i64).declare "b" .i64
    let form (word : String) : Tree := .list [.word word, .word "a", .word "b"]
    let quotient : Code := .binary .div (.getLocal 0) (.getLocal 1)
    let remainder : Code := .binary .rem (.getLocal 0) (.getLocal 1)
    let fr : Frame := [.int 7, .int (-2)]
    ofTree names (form "/") ls = .ok ((quotient, .i64), ls) ∧
      ofTree names (form "%") ls = .ok ((remainder, .i64), ls) ∧
      ∀ lib, Code.Divides lib quotient remainder (.getLocal 0) (.getLocal 1) ∧
        ∀ s, eval lib 2 ⟨1⟩ quotient fr s = .ok (.int (-3), fr) s ∧
          eval lib 2 ⟨1⟩ remainder fr s = .ok (.int 1, fr) s := by
  intro names ls form quotient remainder fr
  have hquotient : ofTree names (form "/") ls = .ok ((quotient, .i64), ls) := rfl
  obtain ⟨found, l, r, t, ls₁, hremainder, hleft, hright, hdivides⟩ := divides hquotient
  cases hremainder
  cases hleft
  cases hright
  exact ⟨hquotient, rfl, fun lib => ⟨hdivides lib, fun s => ⟨rfl, rfl⟩⟩⟩

end Lowering

/-! ## The least number by minus one -/

/-- `(fun quotient ((a i64) (b i64)) i64 (/ a b)) (fun remainder ((a i64) (b i64)) i64 (% a b))` -/
def divisionUnit : Tree :=
  .list [.word "do", function "quotient" "/", function "remainder" "%"]
where
  /-- A function of two numbers that applies an operator to them. -/
  function (name operator : String) : Tree :=
    .list [.word "fun", .word name,
      .list [.list [.word "a", .word "i64"], .list [.word "b", .word "i64"]], .word "i64",
      .list [.word operator, .word "a", .word "b"]]

/-- The run ends in a panic over a division by zero. -/
def panicsOverZero : EStateM.Result Stop Store Value → Bool
  | .error (.fault f) _ => f == .panic "division by zero"
  | _ => false

/-- **The least number is divided by minus one as it would be by zero**, though its quotient wraps
to the number itself and leaves nothing. -/
theorem Reached.least_by_minus_one :
    ∃ m w, Workspace.afterUnit? divisionUnit = some (m, w) ∧ Reached w ∧
    (∀ handle ∈ [m.handle? "quotient", m.handle? "remainder"], ∃ h s, handle = some h ∧
      Kiln.call w.library h [.int Int64.minValue, .int (-1)] w.store =
        .error (.fault (.panic "division by zero")) s) ∧
    (-1 : Int64) ≠ 0 ∧ (-1) * Int64.minValue + 0 = Int64.minValue := by
  obtain ⟨m, w, hafter, hcheck⟩ := Workspace.exists_afterUnit divisionUnit
    (fun m w => [m.handle? "quotient", m.handle? "remainder"].all fun handle => handle.any fun h =>
      panicsOverZero (Kiln.call w.library h [.int Int64.minValue, .int (-1)] w.store)) (by decide)
  refine ⟨m, w, hafter, .afterUnit hafter, fun handle hmem => ?_, by decide, by decide⟩
  obtain ⟨h, hsome, hpanics⟩ := (Option.any_eq_true _ _).1 (List.all_eq_true.1 hcheck handle hmem)
  unfold panicsOverZero at hpanics
  split at hpanics
  · rename_i f s hcall
    rw [beq_iff_eq.1 hpanics] at hcall
    exact ⟨h, s, hsome, hcall⟩
  · cases hpanics

end Kiln
