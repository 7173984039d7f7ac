import Kiln.Proofs.Container.Trees
/-!
# Trees that are written in place

What the forms that the trees of the containers are made of mean, one equation for each. With
them the meaning of a body is computed from the inside out.
-/

namespace Kiln

namespace Source

open Blueprint

/-! ## Names -/

namespace Scopes

variable (sc : Scopes) (symbol : String)

@[simp] theorem lookup_nil : Scopes.lookup [] symbol = none := rfl

@[simp] theorem lookup_opened : Scopes.lookup ([] :: sc) symbol = sc.lookup symbol := rfl

@[simp] theorem lookup_bound (b : Source.Binding) (scope : List Source.Binding) :
    Scopes.lookup ((b :: scope) :: sc) symbol =
      if b.name = symbol then some b else Scopes.lookup (scope :: sc) symbol := by
  rw [Scopes.lookup, List.findSome?_cons, List.find?_cons]
  by_cases h : b.name = symbol
  · rw [decide_eq_true h, if_pos h]
  · rw [decide_eq_false h, if_neg h, Scopes.lookup, List.findSome?_cons]

end Scopes

/-- A variable that was set has its new value, and every other has its old one. -/
@[simp] theorem Variables.set_apply (σ : Variables) (x y : Variable) (v : Value) :
    σ.set x v y = if y = x then v else σ y := rfl

@[simp] theorem activation_param (args : List Value) (i : Nat) :
    activation args (.param i) = args.getD i .unit := rfl

@[simp] theorem symbol?_word (symbol : String) : (word symbol).symbol? = some symbol := rfl

@[simp] theorem lift_ok {α : Type} (a : α) : Run.lift (.ok a) = pure a := rfl

@[simp] theorem cast_ptr (addr : UInt64) (t u : Ty) :
    (Value.ptr addr t).cast (.ptr u) = .ok (.ptr addr u) := rfl

/-! ## Expressions -/

namespace Expr

variable (e d : Expr) (es : List Expr) (sc : Scopes) (σ : Variables)

section Map

variable (type : Ty → Ty) (f : Ty → Value → Run Value)

@[simp] theorem run_map : (e.map type f).run sc σ = (do
    let (v, σ) ← e.run sc σ
    pure (← f (e.type sc) v, σ)) := rfl

@[simp] theorem type_map : (e.map type f).type sc = type (e.type sc) := rfl

@[simp] theorem after_map : (e.map type f).after sc = e.after sc := rfl

end Map

section Map₂

variable (type : Ty → Ty → Ty) (f : Ty → Ty → Value → Value → Run Value)

@[simp] theorem run_map₂ : (d.map₂ e type f).run sc σ = (do
    let (v, σ) ← d.run sc σ
    let (w, σ) ← e.run (d.after sc) σ
    pure (← f (d.type sc) (e.type (d.after sc)) v w, σ)) := rfl

@[simp] theorem type_map₂ : (d.map₂ e type f).type sc = type (d.type sc) (e.type (d.after sc)) :=
  rfl

@[simp] theorem after_map₂ : (d.map₂ e type f).after sc = e.after (d.after sc) := rfl

end Map₂

section MapAll

variable (type : Ty) (f : List Value → Run Value)

@[simp] theorem runAll_nil : runAll [] sc σ = pure ([], σ) := rfl

@[simp] theorem runAll_cons : runAll (e :: es) sc σ = (do
    let (v, σ) ← e.run sc σ
    let (vs, σ) ← runAll es (e.after sc) σ
    pure (v :: vs, σ)) := rfl

@[simp] theorem run_mapAll : (mapAll es type f).run sc σ = (do
    let (vs, σ) ← runAll es sc σ
    pure (← f vs, σ)) := rfl

@[simp] theorem type_mapAll : (mapAll es type f).type sc = type := rfl

@[simp] theorem after_mapAll : (mapAll es type f).after sc = afterAll es sc := rfl

@[simp] theorem afterAll_nil : afterAll [] sc = sc := rfl

@[simp] theorem afterAll_cons : afterAll (e :: es) sc = afterAll es (e.after sc) := rfl

end MapAll

variable (v : Value) (t : Ty)

@[simp] theorem run_literal : (literal v t).run sc σ = pure (v, σ) := rfl

@[simp] theorem type_literal : (literal v t).type sc = t := rfl

@[simp] theorem after_literal : (literal v t).after sc = sc := rfl

@[simp] theorem run_inScope : (inScope es).run sc σ = runLast .unit es ([] :: sc) σ := rfl

@[simp] theorem type_inScope : (inScope es).type sc = lastType .unit es ([] :: sc) := rfl

@[simp] theorem after_inScope : (inScope es).after sc = sc := rfl

end Expr

section Forms

variable (D : Scenery) (Γ Δ : Layouts) (calls : Calls) (place : Place) (t u v : Tree)

/-- A name that is bound is read off its variable, any other off a global. -/
@[simp] theorem run_name (symbol : String) (sc : Scopes) (σ : Variables) :
    (name D symbol).run sc σ = (sc.lookup symbol).elim
      (match D.global? symbol with
        | some (home, i, _) => do
          pure (← Run.present ((← get).global? home i), σ)
        | none => Run.halt .stray)
      fun b => pure (σ b.var, σ) := by
  unfold name
  dsimp only
  rcases sc.lookup symbol with _ | b <;> rcases D.global? symbol with _ | g <;> rfl

@[simp] theorem type_name (symbol : String) (sc : Scopes) :
    (name D symbol).type sc =
      (sc.lookup symbol).elim (((D.global? symbol).map (·.2.2)).getD .unit) (·.type) := by
  unfold name
  dsimp only
  rcases sc.lookup symbol with _ | b <;> rcases D.global? symbol with _ | g <;> rfl

@[simp] theorem after_name (symbol : String) (sc : Scopes) : (name D symbol).after sc = sc := rfl

/-! ## Forms -/

@[simp] theorem ofTree_word (symbol : String) :
    ofTree D Γ Δ calls (word symbol) place = name D symbol := rfl

@[simp] theorem ofTree_number (n : Int64) :
    ofTree D Γ Δ calls (number n) place = .literal (.int n) .i64 := rfl

/-- A `let` binds behind its value. -/
@[simp] theorem ofTree_let (symbol : String) :
    ofTree D Γ Δ calls (list [word "let", word symbol, t]) place = {
      type _ := .unit
      after sc := ((ofTree D Γ Δ calls t (2 :: place)).after sc).bind
        ⟨symbol, .bound place, (ofTree D Γ Δ calls t (2 :: place)).type sc⟩
      run sc σ := do
        let (v, σ) ← (ofTree D Γ Δ calls t (2 :: place)).run sc σ
        pure (.unit, σ.set (.bound place) v) } := rfl

@[simp] theorem ofTree_load : ofTree D Γ Δ calls (list [word "load", t]) place =
    (ofTree D Γ Δ calls t (1 :: place)).map pointee fun t => readAt Δ (pointee t) := rfl

@[simp] theorem ofTree_store : ofTree D Γ Δ calls (list [word "store", t, u]) place =
    (ofTree D Γ Δ calls t (1 :: place)).map₂ (ofTree D Γ Δ calls u (2 :: place))
      (fun _ _ => .unit) fun t _ => writeAt Δ (pointee t) := rfl

@[simp] theorem ofTree_field : ofTree D Γ Δ calls (list [word "field", t, u]) place =
    (ofTree D Γ Δ calls t (1 :: place)).map (fun t => .ptr (fieldOf Γ (pointee t) u).type)
      fun t => fieldAt (fieldOf Γ (pointee t) u).offset (fieldOf Γ (pointee t) u).type := rfl

@[simp] theorem ofTree_dot : ofTree D Γ Δ calls (list [word ".", t, u]) place =
    (ofTree D Γ Δ calls t (1 :: place)).map (fun t => (fieldOf Γ t u).type)
      fun t v => Run.lift (v.fieldAt (fieldIndex Γ t u)) := rfl

@[simp] theorem ofTree_sizeof : ofTree D Γ Δ calls (list [word "sizeof", t]) place =
    .literal (.int ((D.typeOf t).size Γ).toInt64) .u64 := rfl

@[simp] theorem ofTree_cast : ofTree D Γ Δ calls (list [word "cast", t, u]) place =
    (ofTree D Γ Δ calls u (2 :: place)).map (fun _ => D.typeOf t)
      fun _ v => Run.lift (v.cast (D.typeOf t)) := rfl

@[simp] theorem ofTree_len : ofTree D Γ Δ calls (list [word "len", t]) place =
    (ofTree D Γ Δ calls t (1 :: place)).map (fun _ => .u64) fun _ => lengthOf := rfl

@[simp] theorem ofTree_addr : ofTree D Γ Δ calls (list [word "addr", t]) place =
    (ofTree D Γ Δ calls t (1 :: place)).map (fun _ => .u64) fun _ => addressOf := rfl

@[simp] theorem ofTree_offset : ofTree D Γ Δ calls (list [word "offset", t, u]) place =
    (ofTree D Γ Δ calls t (1 :: place)).map₂ (ofTree D Γ Δ calls u (2 :: place))
      (fun t _ => .ptr (pointee t)) fun t _ => strideBy ((pointee t).size Γ) := rfl

@[simp] theorem ofTree_seq_copy : ofTree D Γ Δ calls (list [word "seq_copy", t, u]) place =
    (ofTree D Γ Δ calls t (1 :: place)).map₂ (ofTree D Γ Δ calls u (2 :: place))
      (fun _ _ => .unit) fun _ _ => copyTo := rfl

/-- A name that is bound is assigned as a variable, any other as a global of the unit. -/
@[simp] theorem ofTree_set (symbol : String) :
    ofTree D Γ Δ calls (list [word "set", word symbol, t]) place = {
      type _ := .unit
      after := (ofTree D Γ Δ calls t (2 :: place)).after
      run sc σ := do
        let (v, σ) ← (ofTree D Γ Δ calls t (2 :: place)).run sc σ
        (sc.lookup symbol).elim
          (match D.ownGlobal? symbol with
            | some (i, _) => do
              modify (·.setGlobal D.home i v)
              pure (.unit, σ)
            | none => Run.halt .stray)
          fun b => pure (.unit, σ.set b.var v) } := by
  have hset : ofTree D Γ Δ calls (list [word "set", word symbol, t]) place =
      assign D [(word symbol, name D symbol), (t, ofTree D Γ Δ calls t (2 :: place))] := rfl
  rw [hset, assign, Expr.mk.injEq]
  refine ⟨rfl, rfl, funext fun sc => funext fun σ => bind_congr fun _ => ?_⟩
  rw [symbol?_word, Option.getD_some]
  rcases sc.lookup symbol with _ | b <;> rcases D.ownGlobal? symbol with _ | g <;> rfl

@[simp] theorem ofTree_do : ofTree D Γ Δ calls (list [word "do", t, u, v]) place =
    .inScope [ofTree D Γ Δ calls t (1 :: place), ofTree D Γ Δ calls u (2 :: place),
      ofTree D Γ Δ calls v (3 :: place)] := rfl

theorem ofTree_make {ref : StructRef} (ht : D.typeOf t = .struct ref) :
    ofTree D Γ Δ calls (list [word "make", t, u]) place =
      .mapAll [ofTree D Γ Δ calls u (2 :: place)] (.struct ref)
        fun vs => pure (.struct ref vs) := by
  have hmake : ofTree D Γ Δ calls (list [word "make", t, u]) place =
      make D [(t, ofTree D Γ Δ calls t (1 :: place)), (u, ofTree D Γ Δ calls u (2 :: place))] := rfl
  rw [hmake, make, ht]
  rfl

@[simp] theorem ofTree_add : ofTree D Γ Δ calls (list [word "+", t, u]) place =
    (ofTree D Γ Δ calls t (1 :: place)).map₂ (ofTree D Γ Δ calls u (2 :: place))
      (fun t _ => t) fun _ _ v w => Run.lift (BinaryOp.add.apply v w) := rfl

@[simp] theorem ofTree_sub : ofTree D Γ Δ calls (list [word "-", t, u]) place =
    (ofTree D Γ Δ calls t (1 :: place)).map₂ (ofTree D Γ Δ calls u (2 :: place))
      (fun t _ => t) fun _ _ v w => Run.lift (BinaryOp.sub.apply v w) := rfl

@[simp] theorem ofTree_mul : ofTree D Γ Δ calls (list [word "*", t, u]) place =
    (ofTree D Γ Δ calls t (1 :: place)).map₂ (ofTree D Γ Δ calls u (2 :: place))
      (fun t _ => t) fun _ _ v w => Run.lift (BinaryOp.mul.apply v w) := rfl

@[simp] theorem ofTree_lt : ofTree D Γ Δ calls (list [word "<", t, u]) place =
    (ofTree D Γ Δ calls t (1 :: place)).map₂ (ofTree D Γ Δ calls u (2 :: place))
      (fun _ _ => .bool) fun _ _ v w => Run.lift (BinaryOp.lt.apply v w) := rfl

/-- Each branch has a scope of its own. -/
@[simp] theorem ofTree_if : ofTree D Γ Δ calls (list [word "if", t, u, v]) place = {
    type sc := branchType
      ((ofTree D Γ Δ calls u (2 :: place)).type
        ([] :: (ofTree D Γ Δ calls t (1 :: place)).after sc))
      ((ofTree D Γ Δ calls v (3 :: place)).type
        ([] :: (ofTree D Γ Δ calls t (1 :: place)).after sc))
    after := (ofTree D Γ Δ calls t (1 :: place)).after
    run sc σ := do
      let (b, σ) ← (ofTree D Γ Δ calls t (1 :: place)).truth sc σ
      if b then
        (ofTree D Γ Δ calls u (2 :: place)).run
          ([] :: (ofTree D Γ Δ calls t (1 :: place)).after sc) σ
      else
        (ofTree D Γ Δ calls v (3 :: place)).run
          ([] :: (ofTree D Γ Δ calls t (1 :: place)).after sc) σ } := rfl

/-- An `if` without an alternative. -/
@[simp] theorem ofTree_when : ofTree D Γ Δ calls (list [word "if", t, u]) place = {
    type _ := .unit
    after := (ofTree D Γ Δ calls t (1 :: place)).after
    run sc σ := do
      let (b, σ) ← (ofTree D Γ Δ calls t (1 :: place)).truth sc σ
      if b then
        (ofTree D Γ Δ calls u (2 :: place)).run
          ([] :: (ofTree D Γ Δ calls t (1 :: place)).after sc) σ
      else pure (.unit, σ) } := rfl

@[simp] theorem typeOf_ptr : D.typeOf (list [word "ptr", t]) = .ptr (D.typeOf t) := rfl

theorem placed_eq (ts : List Tree) (k : Nat) :
    (placed place k (ts.map fun t => (t, ofTree D Γ Δ calls t))).map (·.2) =
      (ts.zipIdx k).map fun p => ofTree D Γ Δ calls p.1 (p.2 :: place) := by
  induction ts generalizing k with
  | nil => rfl
  | cons t ts ih => rw [List.map_cons, placed, List.map_cons, ih, List.zipIdx_cons, List.map_cons]

variable {D} in
/-- A call goes to the function that the name means. -/
theorem ofTree_call {function : String} {callee : Callee} {result : Ty} (args : List Tree)
    (hop : BinaryOp.ofSymbol? function = none) (hform : Form.ofWord? function = none)
    (hfunction : D.function? function = some (callee, result)) :
    ofTree D Γ Δ calls (list (word function :: args)) place =
      .mapAll ((args.zipIdx 1).map fun p => ofTree D Γ Δ calls p.1 (p.2 :: place)) result
        (calls callee) := by
  have hitems : ofTree D Γ Δ calls (list (word function :: args)) place =
      ofItems D Γ Δ calls place ((word function, name D function) ::
        placed place 1 (args.map fun t => (t, ofTree D Γ Δ calls t))) := by
    rw [ofTree, list, Tree.fold, Tree.foldAll_eq_map]
    rfl
  have hsymbol : (word function).symbol? = some function := rfl
  rw [hitems, ofItems, hsymbol]
  dsimp only
  rw [hop, hform]
  dsimp only
  rw [call, hfunction]
  dsimp only
  rw [placed_eq]

theorem ofBody_eq (body : List Tree) :
    ofBody D Γ Δ calls body =
      .inScope (body.zipIdx.map fun p => ofTree D Γ Δ calls p.1 [p.2]) := by
  rw [ofBody, placed_eq]

end Forms

/-! ## The base library -/

section Base

variable {later : Library} (hbase : later.find? ⟨0⟩ = some Module.base) (D : Scenery) (Γ : Layouts)
  (n : Nat)

include hbase

theorem run_malloc (size : Value) :
    run D Γ later (n + 1) (.compiled ⟨⟨0⟩, 0⟩) [size] = (do
      let size ← Run.lift size.asInt
      let addr ← allocate (requestedSize size)
      pure (.ptr addr .u8)) := by
  have hfunction : later.function? ⟨⟨0⟩, 0⟩ =
      some (Module.base.native "malloc" [("size", .u64)] .bytePtr .malloc) := by
    rw [Library.function?, hbase]
    rfl
  rw [run, invoke, hfunction]
  rfl

theorem run_free (addr : UInt64) (t : Ty) :
    run D Γ later (n + 1) (.compiled ⟨⟨0⟩, 1⟩) [.ptr addr t] = (do
      Run.updateHeap (·.release addr)
      pure .unit) := by
  have hfunction : later.function? ⟨⟨0⟩, 1⟩ =
      some (Module.base.native "free" [("ptr", .bytePtr)] .unit .free) := by
    rw [Library.function?, hbase]
    rfl
  rw [run, invoke, hfunction]
  rfl

end Base

end Source

end Kiln
