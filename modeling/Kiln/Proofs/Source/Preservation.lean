import Kiln.Proofs.Source.Outline
import Mathlib.Data.List.Induction
import Mathlib.Data.List.GetD
import Mathlib.Data.List.Range
/-!
# Lowering a unit keeps its meaning

A unit that is lowered has the functions that its tree defines, in their order, and
calling one of them on the machine does what the unit means by it
(`lowerUnit_keeps_meaning`): the same value or stop, heap, globals and output, except that
the machine may stop because evaluation nests too deep. The proof is by induction on the
depth: a call inside a body is made at a smaller depth, where it is known to do what it
means, and so the body is lowered to code that does what it means (`Sees.ofTree`).
-/

namespace Kiln

namespace Source

variable {α β : Type}

/-! ## Each variable is declared once -/

theorem mem_declaredAll {place : Place} {x : Variable} :
    ∀ {items : List Tree} {k : Nat},
      (∀ t ∈ items, ∀ place, ∀ x ∈ declared t place, ∃ q, x = .bound (q ++ place)) →
      x ∈ declaredAll place k (items.map fun t => (t, declared t)) →
        ∃ j q, k ≤ j ∧ x = .bound (q ++ j :: place)
  | [], _, _, hx => by cases hx
  | t :: items, k, h, hx => by
    rcases List.mem_append.1 hx with hx | hx
    · obtain ⟨q, rfl⟩ := h t List.mem_cons_self _ x hx
      exact ⟨k, q, Nat.le_refl k, rfl⟩
    · obtain ⟨j, q, hj, rfl⟩ :=
        mem_declaredAll (fun u hu => h u (List.mem_cons_of_mem t hu)) hx
      exact ⟨j, q, Nat.le_of_succ_le hj, rfl⟩

theorem declared_node (items : List Tree) (s : Span) (place : Place) :
    declared (.node items s) place =
      declaredAll place 0 (items.map fun t => (t, declared t)) ++ [.bound place] := by
  rw [declared, Tree.fold, Tree.foldAll_eq_map]
  rfl

/-- The variables of a tree have places in the tree. -/
theorem mem_declared (t : Tree) :
    ∀ place, ∀ x ∈ declared t place, ∃ q, x = .bound (q ++ place) := by
  induction t using Tree.inductItems with
  | leaf a s => exact fun place x hx => by cases hx
  | node items s ih =>
    intro place x hx
    rw [declared_node] at hx
    rcases List.mem_append.1 hx with hx | hx
    · obtain ⟨j, q, -, rfl⟩ := mem_declaredAll ih hx
      exact ⟨q ++ [j], by rw [List.append_assoc]; rfl⟩
    · exact ⟨[], List.mem_singleton.1 hx⟩

theorem nodup_declaredAll (place : Place) :
    ∀ {items : List Tree} {k : Nat}, (∀ t ∈ items, ∀ place, (declared t place).Nodup) →
      (declaredAll place k (items.map fun t => (t, declared t))).Nodup
  | [], _, _ => List.nodup_nil
  | t :: items, k, h => by
    refine List.nodup_append.2 ⟨h t List.mem_cons_self _,
      nodup_declaredAll place fun u hu => h u (List.mem_cons_of_mem t hu), ?_⟩
    rintro x hx y hy rfl
    obtain ⟨q, rfl⟩ := mem_declared t _ x hx
    obtain ⟨j, q', hj, heq⟩ := mem_declaredAll (fun u _ => mem_declared u) hy
    -- the two places differ in which item they lie in
    have hitem : k :: place = j :: place :=
      (List.append_inj' (Variable.bound.inj heq) (by rw [List.length_cons, List.length_cons])).2
    injection hitem with hkj
    omega

/-- **No two variables of a tree are the same.** -/
theorem nodup_declared (t : Tree) : ∀ place, (declared t place).Nodup := by
  induction t using Tree.inductItems with
  | leaf a s => exact fun place => List.nodup_nil
  | node items s ih =>
    intro place
    rw [declared_node]
    refine List.nodup_append.2 ⟨nodup_declaredAll place ih, List.nodup_singleton _, ?_⟩
    rintro x hx y hy rfl
    obtain ⟨j, q, -, rfl⟩ := mem_declaredAll (fun u _ => mem_declared u) hx
    have hlen := congrArg List.length (Variable.bound.inj (List.mem_singleton.1 hy))
    rw [List.length_append, List.length_cons] at hlen
    omega

/-! ## Parameters -/

/-- The variables of the parameters. -/
def paramVars (params : List Param) : List Variable := (List.range params.length).map .param

theorem matches_params (params : List Param) :
    Matches (paramVars params) (params.foldl (fun ls p => ls.declare p.1 p.2) Locals.empty)
      [paramScope params] := by
  induction params using List.reverseRecOn with
  | nil => exact ⟨rfl, .cons .nil .nil⟩
  | append_singleton params p ih =>
    have hdeclare := ih.declare ⟨p.1, .param params.length, p.2⟩
    rw [List.foldl_append]
    have hvars : paramVars (params ++ [p]) = paramVars params ++ [.param params.length] := by
      rw [paramVars, List.length_append, List.length_singleton, List.range_succ, List.map_append]
      rfl
    have hscope : paramScope (params ++ [p]) =
        ⟨p.1, .param params.length, p.2⟩ :: paramScope params := by
      rw [paramScope, List.zipIdx_append, List.map_append, List.reverse_append]
      simp [paramScope]
    rw [hvars, hscope]
    exact hdeclare

theorem nodup_paramVars (params : List Param) : (paramVars params).Nodup :=
  List.nodup_range.map fun _ _ h => Variable.param.inj h

/-- A frame at the start of a call holds what the variables of an activation are at first. -/
theorem frame_eq {params : List Param} {new : List Variable} {args : List Value}
    (hlen : args.length = params.length) (hnew : ∀ x ∈ new, ∃ place, x = .bound place) :
    args ++ List.replicate ((paramVars params ++ new).length - args.length) Value.unit =
      (paramVars params ++ new).map (activation args) := by
  have hparams : (paramVars params).map (activation args) = args := by
    rw [paramVars, List.map_map, ← hlen]
    refine List.ext_getElem (by rw [List.length_map, List.length_range]) fun i h₁ h₂ => ?_
    rw [List.getElem_map, List.getElem_range, Function.comp_apply, activation,
      List.getD_eq_getElem _ _ h₂]
  have hbound : new.map (activation args) = List.replicate new.length .unit := by
    refine List.eq_replicate_iff.2 ⟨List.length_map _, fun v hv => ?_⟩
    obtain ⟨x, hx, rfl⟩ := List.mem_map.1 hv
    obtain ⟨place, rfl⟩ := hnew x hx
    rfl
  have hcount : (paramVars params ++ new).length - args.length = new.length := by
    rw [List.length_append, paramVars, List.length_map, List.length_range]
    omega
  rw [List.map_append, hparams, hbound, hcount]

/-! ## Names -/

section Unit

variable {lib : Library} {deps : List Module} {root : Tree} {names : Names}
  {forms : List FunctionForm} {m : Module}

/-- A global is the unit's own, if the unit has one of that name. -/
theorem global?_eq (D : Scenery) (name : String) :
    D.global? name = ((D.ownGlobal? name).map fun p => (D.home, p)).or
      (D.deps.findSome? fun m => do
        let i ← m.globalIndex? name
        let g ← m.globals[i]?
        return (m.id, i, g.type)) := by
  rw [Scenery.global?, List.findSome?_cons, List.findSome?_map, Scenery.ownGlobal?]
  dsimp only
  generalize List.findIdx? _ D.globals = found
  rcases found with _ | i
  · rfl
  · simp only [Option.bind_eq_bind, Option.bind_some]
    rcases D.globals[i]? with _ | g
    · rfl
    · rfl

/-- A name means the first of the functions that has it, lowered or not. -/
theorem find_function {sigs : List Signature} {name : String}
    (hsigs : sigs = forms.map (·.signature)) :
    (sigs.findIdx? (·.name = name) = none ∧
        (forms.map Scenery.funOf).find? (·.name = name) = none) ∨
      ∃ i f, forms[i]? = some f ∧ sigs.findIdx? (·.name = name) = some i ∧
        sigs[i]? = some f.signature ∧
        (forms.map Scenery.funOf).find? (·.name = name) = some (Scenery.funOf f) := by
  subst hsigs
  induction forms with
  | nil => exact Or.inl ⟨rfl, rfl⟩
  | cons f forms ih =>
    rw [List.map_cons, List.map_cons, List.findIdx?_cons]
    by_cases hname : f.signature.name = name
    · refine Or.inr ⟨0, f, rfl, if_pos (decide_eq_true hname), rfl, ?_⟩
      exact List.find?_cons_of_pos (decide_eq_true hname)
    · rw [if_neg fun h => hname (of_decide_eq_true h),
        List.find?_cons_of_neg (by exact fun h => hname (of_decide_eq_true h))]
      rcases ih with ⟨hidx, hfind⟩ | ⟨i, g, hg, hidx, hsig, hfind⟩
      · exact Or.inl ⟨by rw [hidx]; rfl, hfind⟩
      · exact Or.inr ⟨i + 1, g, hg, by rw [hidx]; rfl, hsig, hfind⟩

/-- Lowering finds the compiled function that the unit means. -/
theorem find_compiled {name : String} {callee : Kiln.Callee} {params : List Param} {result : Ty} :
    ∀ {ms : List Module}, (ms.findSome? fun m => do
        let i ← m.functionIndex? name
        let f ← m.functions[i]?
        return (Kiln.Callee.foreign m.id i, f.params, f.result)) = some (callee, params, result) →
      ∃ other i, callee = .foreign other i ∧ (ms.findSome? fun m => do
        let handle ← m.handle? name
        let f ← m.functions[handle.index]?
        return (Callee.compiled handle, f.result)) = some (.compiled ⟨other, i⟩, result)
  | m :: ms, h => by
    rw [List.findSome?_cons] at h ⊢
    rw [Module.handle?]
    rcases hi : m.functionIndex? name with _ | i
    · rw [hi] at h
      exact find_compiled h
    · rw [hi] at h
      simp only [Option.bind_eq_bind, Option.bind_some, Option.map_some] at h ⊢
      rcases hf : m.functions[i]? with _ | f
      · rw [hf] at h
        exact find_compiled h
      · rw [hf] at h
        cases h
        exact ⟨m.id, i, rfl, rfl⟩

theorem Settled.sees (h : Settled lib deps root names forms m) {later : Library} {calls : Calls}
    {limit : Nat}
    (hown : ∀ i f, forms[i]? = some f → ∀ depth < limit, ∀ vs,
      Run.Follows Eq (invoke later (eval later depth) ⟨lib.nextId, i⟩ vs)
        (calls (.own (Scenery.funOf f)) vs))
    (hcompiled : ∀ handle, ∀ depth < limit, ∀ vs,
      Run.Follows Eq (invoke later (eval later depth) handle vs) (calls (.compiled handle) vs)) :
    Sees names (Scenery.ofUnit lib.nextId deps root) (lib.push m).layouts later calls limit where
  layouts := h.layouts
  type := Scenery.typeOf_of_resolveType _ (Scenery.type?_eq h.home h.deps_eq h.structs) _
  ownGlobal name := by rw [Scenery.ownGlobal?, Names.ownGlobal?, h.globals]
  global_own := by
    intro name i t hfound
    rw [Names.ownGlobal?, h.globals] at hfound
    rw [global?_eq, Scenery.ownGlobal?, hfound]
    rfl
  global_foreign := by
    intro name hnone
    rw [Names.ownGlobal?, h.globals] at hnone
    rw [global?_eq, Scenery.ownGlobal?, hnone, Names.foreignGlobal?, h.deps_eq]
    rfl
  function := by
    intro name callee params result hfound
    rw [Names.function?, h.deps_eq] at hfound
    rw [Scenery.function?, h.functions]
    rcases find_function h.signatures with ⟨hidx, hfind⟩ | ⟨i, f, hf, hidx, hsig, hfind⟩
    · rw [hidx] at hfound
      rw [hfind]
      dsimp only at hfound ⊢
      obtain ⟨other, i, rfl, hsource⟩ := find_compiled hfound
      exact ⟨_, hsource, hcompiled ⟨other, i⟩⟩
    · rw [hidx] at hfound
      obtain ⟨sig, hsig', hfound⟩ := Option.bind_eq_some_iff.1 hfound
      cases hsig.symm.trans hsig'
      cases hfound
      rw [hfind]
      exact ⟨_, rfl, hown i f hf⟩

/-! ## Functions -/

/-- The variables of a body. -/
def bodyVars (body : List Tree) : List Variable :=
  declaredAll [] 0 (body.map fun t => (t, declared t))

theorem bound_of_mem_bodyVars {body : List Tree} {x : Variable} (hx : x ∈ bodyVars body) :
    ∃ place, x = .bound place := by
  obtain ⟨j, q, -, rfl⟩ := mem_declaredAll (fun u _ => mem_declared u) hx
  exact ⟨_, rfl⟩

theorem nodup_bodyVars (params : List Param) (body : List Tree) :
    (paramVars params ++ bodyVars body).Nodup := by
  refine List.nodup_append.2 ⟨nodup_paramVars params,
    nodup_declaredAll [] fun t _ => nodup_declared t, ?_⟩
  rintro x hx y hy rfl
  obtain ⟨i, -, rfl⟩ := List.mem_map.1 hx
  obtain ⟨place, hplace⟩ := bound_of_mem_bodyVars hy
  cases hplace

section Value

variable {home : ModuleId} {limit depth : Nat} {O : List Variable} {code : Code}
  {run : Variables → Run (Value × Variables)}

/-- What code comes to when nobody looks at the frame any more. -/
theorem Compiles.value (h : Compiles lib home limit O code run) (hle : depth ≤ limit)
    (σ : Variables) :
    Run.Follows Eq (do return (← eval lib depth home code (O.map σ)).1)
      (do
        let (v, _) ← run σ
        pure v) :=
  step (h depth hle σ) fun _ _ => .pure rfl

/-- The same where the value is dropped. -/
theorem Compiles.dropped (h : Compiles lib home limit O code run) (hle : depth ≤ limit)
    (σ : Variables) :
    Run.Follows Eq (do return (← eval lib depth home (.block [code, .const .unit]) (O.map σ)).1)
      (do
        let _ ← run σ
        pure .unit) := by
  have hblock : Compiles lib home limit O (.block [code, .const .unit]) (fun σ => do
      let (_, σ) ← run σ
      pure (.unit, σ)) :=
    .of_step fun depth hlt σ => step (h depth (Nat.le_of_lt hlt) σ) fun _ σ =>
      step (Compiles.const .unit depth (Nat.le_of_lt hlt) σ) fun v σ => Agree.pure v σ
  have hvalue := hblock.value hle σ
  rwa [bind_assoc] at hvalue

end Value

variable {D : Scenery} {Γ : Layouts} {calls : Calls} {limit : Nat}

/-- **The code of a function does what its body means**, in a frame that holds the arguments and
else nothing but unit. -/
theorem Sees.lowerFunction (hsees : Sees names D Γ lib calls limit) {f : FunctionForm}
    {g : Function} (h : names.lowerFunction f = .ok g) :
    g.name = f.signature.name ∧ g.params = f.signature.params ∧ ∃ slots code,
      g.body = .code slots code ∧ ∀ depth ≤ limit, ∀ args : List Value,
        args.length = f.signature.params.length →
          Run.Follows Eq
            (do
              let fr := args ++ List.replicate (slots - args.length) .unit
              return (← eval lib depth D.home code fr).1)
            (do
              let body := ofBody D Γ lib.layouts calls f.body
              let scopes := [paramScope f.signature.params]
              let (v, _) ← body.run scopes (activation args)
              pure (returned f.signature.result (body.type scopes) v)) := by
  obtain ⟨⟨⟨code, type⟩, ls⟩, hbody, h⟩ := ok_of_bind h
  have hlowers : Lowers lib D.home limit (bodyVars f.body)
      (Lowering.sequence (f.body.map (Lowering.operand names)))
      (ofBody D Γ lib.layouts calls f.body) :=
    (LowersAll.placed (fun t _ => hsees.ofTree t) [] 0).sequence
  obtain ⟨new, hnew, hm, -, hcode⟩ := hlowers _ _ _ _ _ hbody (matches_params f.signature.params)
    (nodup_bodyVars _ f.body)
  obtain ⟨rfl, hcode⟩ := hcode _ List.prefix_rfl
    ((nodup_bodyVars _ f.body).sublist (hnew.append_left _))
  -- at the start the frame holds the values that the variables have at first
  have hframe : ∀ args : List Value, args.length = f.signature.params.length →
      args ++ List.replicate (ls.slots - args.length) Value.unit =
        (paramVars f.signature.params ++ new).map (activation args) := fun args hlen => by
    rw [hm.slots]
    exact frame_eq hlen fun x hx => bound_of_mem_bodyVars (hnew.subset hx)
  dsimp only at h hcode
  split at h
  · rename_i hunit
    cases h
    refine ⟨rfl, rfl, _, _, rfl, fun depth hle args hlen => ?_⟩
    dsimp only
    rw [hframe args hlen]
    split
    · rename_i htype
      have hreturned : ∀ v, returned f.signature.result _ v = v := fun v =>
        if_neg fun hdrop => hdrop.2 htype
      simp only [hreturned]
      exact hcode.value hle _
    · rename_i htype
      have hreturned : ∀ v, returned f.signature.result _ v = .unit := fun v =>
        if_pos ⟨hunit, htype⟩
      simp only [hreturned]
      exact hcode.dropped hle _
  · rename_i hunit
    split at h
    · cases h
      refine ⟨rfl, rfl, _, _, rfl, fun depth hle args hlen => ?_⟩
      dsimp only
      have hreturned : ∀ type v, returned f.signature.result type v = v := fun type v =>
        if_neg fun hdrop => hunit hdrop.1
      simp only [hframe args hlen, hreturned]
      exact hcode.value hle _
    · cases h

theorem invoke_code {ev : ModuleId → Evaluator} {handle : FunctionHandle} {g : Function}
    {slots : Nat} {code : Code} (hg : lib.function? handle = some g)
    (hbody : g.body = .code slots code) (args : List Value) :
    invoke lib ev handle args =
      if args.length ≠ g.params.length then
        Run.fail (.arity g.name g.params.length args.length)
      else do
        let fr := args ++ List.replicate (slots - args.length) .unit
        return (← ev handle.home code fr).1 := by
  obtain ⟨name, params, result, body⟩ := g
  subst hbody
  rw [invoke, hg]
  rfl

/-- **Calls of lowered functions do what the functions mean**, at any depth, in every library that
has the module at its place. -/
theorem Settled.invoke_own (h : Settled lib deps root names forms m) {later : Library}
    (hlater : later.find? lib.nextId = some m) :
    ∀ depth n, depth ≤ n → ∀ i f, forms[i]? = some f → ∀ args,
      Run.Follows Eq (invoke later (eval later depth) ⟨lib.nextId, i⟩ args)
        (run (Scenery.ofUnit lib.nextId deps root) (lib.push m).layouts later (n + 1)
          (.own (Scenery.funOf f)) args) := by
  intro depth
  induction depth using Nat.strong_induction_on with
  | _ depth ih =>
    intro n hle i f hf args
    have hsees : Sees names (Scenery.ofUnit lib.nextId deps root) (lib.push m).layouts later
        (run (Scenery.ofUnit lib.nextId deps root) (lib.push m).layouts later n) depth := by
      refine h.sees (fun i f hf inner hinner vs => ?_) fun handle inner hinner vs => ?_
      · obtain ⟨k, rfl⟩ := Nat.exists_eq_succ_of_ne_zero (n := n) (by omega)
        exact ih inner hinner k (by omega) i f hf vs
      · obtain ⟨k, rfl⟩ := Nat.exists_eq_succ_of_ne_zero (n := n) (by omega)
        exact invoke_follows (eval_follows (by omega)) handle vs
    obtain ⟨g, hg, hlower⟩ := getElem?_of_forall₂ h.lowered hf
    obtain ⟨hname, hparams, slots, code, hbody, hcode⟩ := hsees.lowerFunction hlower
    have hfunction : later.function? ⟨lib.nextId, i⟩ = some g := by
      rw [Library.function?, hlater]
      exact hg
    rw [invoke_code hfunction hbody, run, hname, hparams]
    by_cases hlen : args.length = (Scenery.funOf f).params.length
    · have hneg : ¬args.length ≠ f.signature.params.length := not_not.2 hlen
      rw [if_neg hneg, if_neg (not_not.2 hlen)]
      exact hcode depth le_rfl args hlen
    · have hpos : args.length ≠ f.signature.params.length := hlen
      rw [if_pos hpos, if_pos hlen]
      exact .throw _

theorem functionIndex?_of_nodup {i : Nat} {name : String}
    (hnodup : (m.functions.map (·.name)).Nodup) (hi : (m.functions.map (·.name))[i]? = some name) :
    m.functionIndex? name = some i := by
  obtain ⟨hlt, hname⟩ := List.getElem?_eq_some_iff.1 hi
  rw [List.getElem_map] at hname
  rw [List.length_map] at hlt
  refine List.findIdx?_eq_some_iff_getElem.2 ⟨hlt, decide_eq_true hname, fun j hj hj' => ?_⟩
  have hsame : (m.functions.map (·.name))[j]? = (m.functions.map (·.name))[i]? := by
    rw [hi, List.getElem?_map, List.getElem?_eq_getElem (Nat.lt_trans hj hlt)]
    exact congrArg some (of_decide_eq_true hj')
  have hji := (List.getElem?_inj (by rw [List.length_map]; omega) hnodup).1 hsame
  omega

/-- A function that is lowered has the signature it was given. -/
theorem lowerFunction_signature {f : FunctionForm} {g : Function}
    (h : names.lowerFunction f = .ok g) :
    (⟨g.name, g.params, g.result⟩ : Signature) = f.signature := by
  obtain ⟨⟨⟨code, type⟩, ls⟩, -, h⟩ := ok_of_bind h
  dsimp only at h
  split at h
  · cases h
    rfl
  · split at h
    · cases h
      rfl
    · cases h

/-- The functions of a module have the signatures that the unit gives them, in their order. -/
theorem Settled.signatures_functions (h : Settled lib deps root names forms m) :
    m.functions.map (fun g => (⟨g.name, g.params, g.result⟩ : Signature)) =
      forms.map (·.signature) := by
  have hall : List.Forall₂ Eq (forms.map (·.signature))
      (m.functions.map fun g => (⟨g.name, g.params, g.result⟩ : Signature)) := by
    rw [List.forall₂_map_left_iff, List.forall₂_map_right_iff]
    exact h.lowered.imp fun _ _ hlower => (lowerFunction_signature hlower).symm
  rw [List.forall₂_eq_eq_eq] at hall
  exact hall.symm

theorem Settled.names_functions (h : Settled lib deps root names forms m) :
    m.functions.map (·.name) = forms.map (·.signature.name) := by
  have hnames := congrArg (List.map Signature.name) h.signatures_functions
  rwa [List.map_map, List.map_map] at hnames

/-- Each function that a unit defines has a handle, and a call by it, at whatever depth, does what
the function means. -/
theorem Settled.handle (h : Settled lib deps root names forms m) {f : Fun}
    (hf : f ∈ (Scenery.ofUnit lib.nextId deps root).functions) :
    ∃ handle, m.handle? f.name = some handle ∧
      ∀ later : Library, later.find? lib.nextId = some m → ∀ depth n, depth < n → ∀ args,
        Run.Follows Eq (invoke later (eval later depth) handle args)
          (run (Scenery.ofUnit lib.nextId deps root) (lib.push m).layouts later n
            (.own f) args) := by
  rw [h.functions] at hf
  obtain ⟨form, hform, rfl⟩ := List.mem_map.1 hf
  obtain ⟨i, hi⟩ := List.mem_iff_getElem?.1 hform
  refine ⟨⟨lib.nextId, i⟩, ?_, fun later hlater depth n hlt args => ?_⟩
  · rw [Module.handle?, h.id, functionIndex?_of_nodup (h.names_functions ▸ h.nodup)]
    · rfl
    · rw [h.names_functions, List.getElem?_map, hi]
      rfl
  · obtain ⟨k, rfl⟩ := Nat.exists_eq_succ_of_ne_zero (n := n) (by omega)
    exact h.invoke_own hlater depth k (by omega) i form hi args

/-- **Lowering keeps the meaning of functions.** Of a unit that is lowered, every function can be
called by its name, and the call does on the machine what the unit means by it, in every library
that has the unit's module at its place. -/
theorem lowerUnit_keeps_meaning {lib : Library} {name : String} {deps : List Module} {root : Tree}
    {lowered : LoweredUnit} (h : lowerUnit lib name deps root = .ok lowered) :
    lowered.module.functions.map (·.name) =
        (Scenery.ofUnit lib.nextId deps root).functions.map (·.name) ∧
      (lib.push lowered.module).find? lib.nextId = some lowered.module ∧
      ∀ f ∈ (Scenery.ofUnit lib.nextId deps root).functions, ∃ handle,
        lowered.module.handle? f.name = some handle ∧
          ∀ later : Library, later.find? lib.nextId = some lowered.module →
            ∀ n, maxDepth < n → ∀ args,
              Run.Follows Eq (Kiln.call later handle args)
                (run (Scenery.ofUnit lib.nextId deps root) (lib.push lowered.module).layouts later n
                  (.own f) args) := by
  obtain ⟨names, forms, hs⟩ := settled_of_lowerUnit h
  refine ⟨?_, find?_push_nextId lib _, fun f hf => ?_⟩
  · rw [hs.names_functions, hs.functions, List.map_map]
    rfl
  · obtain ⟨handle, hhandle, hmeaning⟩ := hs.handle hf
    exact ⟨handle, hhandle, fun later hlater n hn args => hmeaning later hlater maxDepth n hn args⟩

/-- `(fun keep ((x i64)) i64 (if true (let x 1)) x)`, where the inner variable hides the
parameter and is gone behind the branch. -/
def keepUnit : Tree :=
  .node [word "fun", word "keep", .node [.node [word "x", word "i64"] default] default, word "i64",
    .node [word "if", .leaf (.bool true) default,
      .node [word "let", word "x", .leaf (.int 1) default] default] default,
    word "x"] default
where
  /-- A symbol, wherever it was read. -/
  word (name : String) : Tree := .leaf (.sym name) default

theorem lowerUnit_keeps_meaning_shadowed :
    ∃ lowered, lowerUnit .initial "keep" [] keepUnit = .ok lowered ∧
      ∃ f ∈ (Scenery.ofUnit ⟨1⟩ [] keepUnit).functions, ∃ handle,
        lowered.module.handle? f.name = some handle ∧ ∀ args,
          Run.Follows Eq (Kiln.call (Library.initial.push lowered.module) handle args)
            (run (Scenery.ofUnit ⟨1⟩ [] keepUnit) (Library.initial.push lowered.module).layouts
              (Library.initial.push lowered.module) (maxDepth + 1) (.own f) args) := by
  obtain ⟨lowered, hlowered⟩ : ∃ lowered, lowerUnit .initial "keep" [] keepUnit = .ok lowered :=
    ok_of_toBool (by decide +kernel)
  obtain ⟨-, hfind, hkeeps⟩ := lowerUnit_keeps_meaning hlowered
  obtain ⟨handle, hhandle, hmeaning⟩ := hkeeps _ List.mem_cons_self
  refine ⟨lowered, hlowered, _, List.mem_cons_self, handle, hhandle, ?_⟩
  exact hmeaning _ hfind _ (Nat.lt_succ_self maxDepth)

end Unit

end Source

end Kiln
