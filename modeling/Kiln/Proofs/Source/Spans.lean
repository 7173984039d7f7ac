import Kiln.Proofs.Source.Preservation
/-!
# Meaning does not depend on spans

A unit whose trees are read at other places defines the same, and its bodies mean the same
(`ofTree_respan`). So it does not matter where in a text a tree was read, nor that a tree
put in place of a hole has the span of the hole.
-/

namespace Kiln

namespace Tree

variable {t u : Tree} (s : Span)

@[simp] theorem symbol?_respan (t : Tree) : (t.respan s).symbol? = t.symbol? := by
  rcases t with ⟨a, s'⟩ | ⟨items, s'⟩
  · cases a <;> rfl
  · rfl

@[simp] theorem items?_respan (t : Tree) :
    (t.respan s).items? = t.items?.map fun items => items.map (respan s) := by
  rcases t with ⟨a, s'⟩ | ⟨items, s'⟩
  · rfl
  · rw [respan, respanAll_eq_map]
    rfl

@[simp] theorem form?_respan (word : String) (t : Tree) :
    (t.respan s).form? word = (t.form? word).map fun items => items.map (respan s) := by
  rcases t with ⟨a, s'⟩ | ⟨_ | ⟨head, rest⟩, s'⟩
  · rfl
  · rfl
  · rw [respan, respanAll_eq_map, List.map_cons, form?, form?, symbol?_respan]
    split <;> rfl

@[simp] theorem respan_respan (s' : Span) (t : Tree) : (t.respan s').respan s = t.respan s := by
  induction t using inductItems with
  | leaf a _ => rfl
  | node items _ ih =>
    rw [respan, respan, respan, respanAll_eq_map, respanAll_eq_map, respanAll_eq_map, List.map_map]
    congr 1
    exact List.map_congr_left ih

mutual

/-- **Trees are alike when they are the same with all spans replaced.** -/
theorem respan_eq_of_alike : ∀ {t u : Tree}, t.alike u = true → t.respan s = u.respan s
  | leaf a _, leaf b _, h => by
    rw [alike] at h
    rw [respan, respan, of_decide_eq_true h]
  | node xs _, node ys _, h => by
    rw [alike] at h
    rw [respan, respan, respanAll_eq_of_alikeAll h]
  | leaf _ _, node _ _, h => by cases h
  | node _ _, leaf _ _, h => by cases h

theorem respanAll_eq_of_alikeAll : ∀ {ts us : List Tree}, alikeAll ts us = true →
    respanAll s ts = respanAll s us
  | [], [], _ => rfl
  | t :: ts, u :: us, h => by
    rw [alikeAll, Bool.and_eq_true] at h
    rw [respanAll, respanAll, respan_eq_of_alike h.1, respanAll_eq_of_alikeAll h.2]
  | [], _ :: _, h => by cases h
  | _ :: _, [], h => by cases h

end

mutual

/-- And trees that are the same with all spans replaced are alike. -/
theorem alike_of_respan_eq : ∀ {t u : Tree}, t.respan s = u.respan s → t.alike u = true
  | leaf a _, leaf b _, h => by
    rw [respan, respan] at h
    injection h with hatom
    rw [alike, hatom, decide_eq_true rfl]
  | node xs _, node ys _, h => by
    rw [respan, respan] at h
    injection h with hitems
    rw [alike, alikeAll_of_respanAll_eq hitems]
  | leaf _ _, node _ _, h => by cases h
  | node _ _, leaf _ _, h => by cases h

theorem alikeAll_of_respanAll_eq : ∀ {ts us : List Tree}, respanAll s ts = respanAll s us →
    alikeAll ts us = true
  | [], [], _ => rfl
  | t :: ts, u :: us, h => by
    rw [respanAll, respanAll] at h
    injection h with hhead htail
    rw [alikeAll, alike_of_respan_eq hhead, alikeAll_of_respanAll_eq htail]
    rfl
  | [], _ :: _, h => by cases h
  | _ :: _, [], h => by cases h

end

end Tree

mutual

theorem definitions_respan (s : Span) : ∀ t : Tree,
    definitions (t.respan s) = (definitions t).map (Tree.respan s)
  | .leaf a s' => rfl
  | .node [] s' => rfl
  | .node (head :: rest) s' => by
    rw [Tree.respan, Tree.respanAll, definitions, definitions, Tree.symbol?_respan]
    split
    · exact definitionsAll_respan s rest
    · rw [List.map_singleton, Tree.respan, Tree.respanAll]

theorem definitionsAll_respan (s : Span) : ∀ ts : List Tree,
    definitionsAll (Tree.respanAll s ts) = (definitionsAll ts).map (Tree.respan s)
  | [] => rfl
  | t :: ts => by
    rw [Tree.respanAll, definitionsAll, definitionsAll, List.map_append, definitions_respan s t,
      definitionsAll_respan s ts]

end

namespace Source

namespace Scenery

variable (D : Scenery) (s : Span)

@[simp] theorem typeOf_respan (t : Tree) : D.typeOf (t.respan s) = D.typeOf t := by
  induction t using Tree.inductItems with
  | leaf a _ => cases a <;> rfl
  | node items _ ih =>
    rcases items with _ | ⟨head, _ | ⟨inner, _ | ⟨_, _⟩⟩⟩
    · rfl
    · rfl
    · rw [Tree.respan, Tree.respanAll, Tree.respanAll, Tree.respanAll, typeOf, typeOf,
        Tree.symbol?_respan, ih inner (by simp)]
    · rfl

theorem params_respan (ts : List Tree) : D.params (ts.map (Tree.respan s)) = D.params ts := by
  rw [params, params, List.filterMap_map]
  refine List.filterMap_congr fun t _ => ?_
  rcases t with ⟨a, _⟩ | ⟨_ | ⟨name, _ | ⟨type, _ | ⟨_, _⟩⟩⟩, _⟩
  · rfl
  · rfl
  · rfl
  · simp [Tree.respan]
  · rfl

/-- A function with its body read elsewhere. -/
def respanBody (f : Fun) : Fun := { f with body := f.body.map (Tree.respan s) }

theorem functionOf?_respan (t : Tree) :
    D.functionOf? (t.respan s) = (D.functionOf? t).map (respanBody s) := by
  rw [functionOf?, functionOf?, Tree.form?_respan]
  rcases t.form? "fun" with _ | _ | ⟨name, _ | ⟨params, _ | ⟨result, body⟩⟩⟩
  · rfl
  · rfl
  · rfl
  · rfl
  · simp only [Option.map_some, List.map_cons, Tree.symbol?_respan, Tree.items?_respan,
      typeOf_respan]
    rcases params.items? with _ | items
    · rfl
    · rw [Option.map_some, Option.getD_some, Option.getD_some, params_respan]
      rfl

/-- A struct read elsewhere. -/
def respanStruct (form : StructForm) : StructForm := ⟨form.name, form.fields.map (Tree.respan s), s⟩

theorem structOf?_respan (t : Tree) :
    structOf? (t.respan s) = (structOf? t).map (respanStruct s) := by
  rw [structOf?, structOf?, Tree.form?_respan]
  rcases t.form? "struct" with _ | _ | ⟨name, fields⟩
  · rfl
  · rfl
  · simp [respanStruct]

theorem structs_respan (root : Tree) : (definitions (root.respan s)).filterMap structOf? =
    ((definitions root).filterMap structOf?).map (respanStruct s) := by
  rw [definitions_respan, List.filterMap_map, List.map_filterMap]
  exact List.filterMap_congr fun t _ => structOf?_respan s t

theorem globalOf?_respan (t : Tree) : D.globalOf? (t.respan s) = D.globalOf? t := by
  rw [globalOf?, globalOf?, Tree.form?_respan]
  rcases t.form? "global" with _ | _ | ⟨name, _ | ⟨type, _ | ⟨init, _ | ⟨_, _⟩⟩⟩⟩
  all_goals simp

theorem inits_respan (root : Tree) : (definitions (root.respan s)).filterMap initOf? =
    ((definitions root).filterMap initOf?).map (Tree.respan s) := by
  rw [definitions_respan, List.filterMap_map, List.map_filterMap]
  refine List.filterMap_congr fun t _ => ?_
  rw [Function.comp_apply, initOf?, initOf?, Tree.form?_respan]
  rcases t.form? "global" with _ | _ | ⟨name, _ | ⟨type, _ | ⟨init, _ | ⟨_, _⟩⟩⟩⟩
  all_goals simp

end Scenery

/-! ## Expressions -/

variable (D : Scenery) (Γ Δ : Layouts) (calls : Calls) (s : Span)

/-- An operand read elsewhere. -/
def respanOperand (o : Operand) : Operand := (o.1.respan s, o.2)

theorem form_respan (place : Place) (f : Form) (os : List Operand) :
    form D Γ Δ place f (os.map (respanOperand s)) = form D Γ Δ place f os := by
  have hexprs : (os.map (respanOperand s)).map (·.2) = os.map (·.2) := by
    rw [List.map_map]
    rfl
  have hfield : ∀ (Γ : Layouts) (t : Ty) (name : Tree),
      fieldOf Γ t (name.respan s) = fieldOf Γ t name := fun Γ t name => by
    rw [fieldOf, fieldOf, Tree.symbol?_respan]
  have hindex : ∀ (Γ : Layouts) (t : Ty) (name : Tree),
      fieldIndex Γ t (name.respan s) = fieldIndex Γ t name := fun Γ t name => by
    rw [fieldIndex, fieldIndex, Tree.symbol?_respan]
  cases f with
  | sequence => rw [form, form, hexprs]
  | all | any => rw [form, form, chain, chain, hexprs]
  | bind | assign | branch | loop | make | sequenceOf =>
    rcases os with _ | ⟨a, _ | ⟨b, _ | ⟨c, _ | ⟨d, os⟩⟩⟩⟩
    all_goals simp [form, bind, assign, branch, loop, make, respanOperand, Function.comp_def]
  | _ =>
    rcases os with _ | ⟨a, _ | ⟨b, _ | ⟨c, os⟩⟩⟩
    all_goals simp [form, respanOperand, hfield, hindex]

theorem ofItems_respan (place : Place) (os : List Operand) :
    ofItems D Γ Δ calls place (os.map (respanOperand s)) = ofItems D Γ Δ calls place os := by
  rcases os with _ | ⟨⟨head, e⟩, args⟩
  · rfl
  · rw [List.map_cons]
    unfold ofItems
    dsimp only [respanOperand]
    rw [Tree.symbol?_respan]
    rcases head.symbol? with _ | word
    · rfl
    · dsimp only
      rcases BinaryOp.ofSymbol? word with _ | op
      · rcases Form.ofWord? word with _ | f
        · dsimp only
          rw [call, call, List.map_map]
          rfl
        · exact form_respan D Γ Δ s place f args
      · rcases args with _ | ⟨a, _ | ⟨b, _ | ⟨c, args⟩⟩⟩ <;> rfl

theorem placed_respan (place : Place) (items : List Tree) : ∀ k,
    placed place k (items.map fun t => (t.respan s, ofTree D Γ Δ calls t)) =
      (placed place k (items.map fun t => (t, ofTree D Γ Δ calls t))).map (respanOperand s) := by
  induction items with
  | nil => exact fun _ => rfl
  | cons t items ih =>
    intro k
    rw [List.map_cons, List.map_cons, placed, placed, List.map_cons, ih]
    rfl

/-- **What a tree means does not depend on its spans.** -/
theorem ofTree_respan (t : Tree) : ofTree D Γ Δ calls (t.respan s) = ofTree D Γ Δ calls t := by
  induction t using Tree.inductItems with
  | leaf a _ => rfl
  | node items _ ih =>
    funext place
    rw [Tree.respan, Tree.respanAll_eq_map, ofTree, ofTree, Tree.fold, Tree.fold,
      Tree.foldAll_eq_map, Tree.foldAll_eq_map, List.map_map]
    have hitems : items.map ((fun t => (t, ofTree D Γ Δ calls t)) ∘ Tree.respan s) =
        items.map fun t => (t.respan s, ofTree D Γ Δ calls t) :=
      List.map_congr_left fun t ht => by rw [Function.comp_apply, ih t ht]
    have hplaced := placed_respan D Γ Δ calls s place items 0
    rw [← hitems] at hplaced
    refine (congrArg (ofItems D Γ Δ calls place) hplaced).trans ?_
    exact ofItems_respan D Γ Δ calls s place _

theorem ofBody_respan (body : List Tree) :
    ofBody D Γ Δ calls (body.map (Tree.respan s)) = ofBody D Γ Δ calls body := by
  have hbody : (body.map (Tree.respan s)).map (fun t => (t, ofTree D Γ Δ calls t)) =
      body.map fun t => (t.respan s, ofTree D Γ Δ calls t) := by
    rw [List.map_map]
    exact List.map_congr_left fun t _ => by rw [Function.comp_apply, ofTree_respan]
  rw [ofBody, ofBody, hbody, placed_respan, List.map_map]
  rfl

/-! ## Units -/

/-- A function that a call goes to, with its body read elsewhere. -/
def respanCallee : Callee → Callee
  | .own f => .own (Scenery.respanBody s f)
  | .compiled handle => .compiled handle

/-- What a unit defines that is read elsewhere. -/
def Scenery.respan (D : Scenery) : Scenery :=
  { D with functions := D.functions.map (Scenery.respanBody s) }

/-- Which types trees spell does not depend on the functions, nor on the globals. -/
theorem Scenery.typeOf_definitions (functions : List Fun) (globals : List Global) (t : Tree) :
    ({ D with functions, globals } : Scenery).typeOf t = D.typeOf t := by
  induction t using Tree.inductItems with
  | leaf a _ => cases a <;> rfl
  | node items _ ih =>
    rcases items with _ | ⟨head, _ | ⟨inner, _ | ⟨_, _⟩⟩⟩
    · rfl
    · rfl
    · rw [typeOf, typeOf, ih inner (by simp)]
    · rfl

/-- A unit defines what it sees its definitions as. -/
theorem Scenery.definitions_ofUnit (home : ModuleId) (deps : List Module) (root : Tree) :
    (ofUnit home deps root).functions =
        (definitions root).filterMap (ofUnit home deps root).functionOf? ∧
      (ofUnit home deps root).globals =
        (definitions root).filterMap (ofUnit home deps root).globalOf? := by
  have htype : ∀ t, (ofUnit home deps root).typeOf t = (⟨home, deps,
      ((definitions root).filterMap structOf?).map (·.name), [], []⟩ : Scenery).typeOf t :=
    fun t => (typeOf_definitions _ _ _ t).symm ▸ rfl
  refine ⟨List.filterMap_congr fun t _ => ?_, List.filterMap_congr fun t _ => ?_⟩
  · simp only [functionOf?, params, htype]
  · simp only [globalOf?, htype]

theorem Scenery.ofUnit_respan (home : ModuleId) (deps : List Module) (root : Tree) :
    ofUnit home deps (root.respan s) = (ofUnit home deps root).respan s := by
  have hstructs : ((definitions (root.respan s)).filterMap structOf?).map (·.name) =
      ((definitions root).filterMap structOf?).map (·.name) := by
    rw [structs_respan, List.map_map]
    rfl
  rw [ofUnit, hstructs, ofUnit, respan, definitions_respan]
  congr 1
  · rw [List.filterMap_map]
    refine Eq.trans ?_ List.map_filterMap.symm
    exact List.filterMap_congr fun t _ => functionOf?_respan _ s t
  · rw [List.filterMap_map]
    exact List.filterMap_congr fun t _ => globalOf?_respan _ s t

theorem Scenery.function?_respan (name : String) :
    (D.respan s).function? name = (D.function? name).map fun p => (respanCallee s p.1, p.2) := by
  have hfind : (D.respan s).functions.find? (·.name = name) =
      (D.functions.find? (·.name = name)).map (respanBody s) := by
    rw [respan, List.find?_map]
    rfl
  rw [function?, function?, hfind]
  generalize List.find? _ D.functions = found
  rcases found with _ | f
  · dsimp only [respan, Option.map_none]
    rw [List.map_findSome?]
    congr 1
    funext m
    rw [Function.comp_apply]
    rcases m.handle? name with _ | handle
    · rfl
    · rcases hf : m.functions[handle.index]? with _ | f
      · simp [hf]
      · simp [hf, respanCallee]
  · rfl

variable {calls' : Calls}

theorem form_scenery (place : Place) (f : Form) (os : List Operand) :
    form (D.respan s) Γ Δ place f os = form D Γ Δ place f os := by
  have htype : ∀ t, (D.respan s).typeOf t = D.typeOf t := D.typeOf_definitions _ _
  cases f with
  | sequence | all | any | bind | assign | branch | loop => rfl
  | make | sequenceOf =>
    rcases os with _ | ⟨a, os⟩
    all_goals simp only [form, make, htype]
  | _ =>
    rcases os with _ | ⟨a, _ | ⟨b, _ | ⟨c, os⟩⟩⟩
    all_goals simp only [form, htype]

theorem ofItems_scenery (hcalls : ∀ c vs, calls' (respanCallee s c) vs = calls c vs)
    (place : Place) (os : List Operand) :
    ofItems (D.respan s) Γ Δ calls' place os = ofItems D Γ Δ calls place os := by
  rcases os with _ | ⟨⟨head, e⟩, args⟩
  · rfl
  · unfold ofItems
    dsimp only
    rcases head.symbol? with _ | word
    · rfl
    · dsimp only
      rcases BinaryOp.ofSymbol? word with _ | op
      · rcases Form.ofWord? word with _ | f
        · dsimp only
          rw [call, call, Scenery.function?_respan]
          rcases D.function? word with _ | ⟨callee, result⟩
          · rfl
          · rw [Option.map_some]
            dsimp only
            congr 1
            exact funext (hcalls callee)
        · exact form_scenery D Γ Δ s place f args
      · rfl

/-- Calls apart, what a tree means does not depend on how the functions of the unit were read. -/
theorem ofTree_scenery (hcalls : ∀ c vs, calls' (respanCallee s c) vs = calls c vs) (t : Tree) :
    ofTree (D.respan s) Γ Δ calls' t = ofTree D Γ Δ calls t := by
  induction t using Tree.inductItems with
  | leaf a _ => rfl
  | node items _ ih =>
    funext place
    rw [ofTree, ofTree, Tree.fold, Tree.fold, Tree.foldAll_eq_map, Tree.foldAll_eq_map]
    have hitems : items.map (fun t => (t, ofTree (D.respan s) Γ Δ calls' t)) =
        items.map fun t => (t, ofTree D Γ Δ calls t) :=
      List.map_congr_left fun t ht => by rw [ih t ht]
    refine (congrArg (fun is => ofItems _ _ _ _ _ (placed place 0 is)) hitems).trans ?_
    exact ofItems_scenery D Γ Δ calls s hcalls place _

/-- A call of a function that was read elsewhere does the same. -/
theorem run_respan (lib : Library) : ∀ depth c vs,
    run (D.respan s) Γ lib depth (respanCallee s c) vs = run D Γ lib depth c vs
  | 0, _, _ => rfl
  | _ + 1, .compiled _, _ => rfl
  | depth + 1, .own f, vs => by
    have hbody : ofBody (D.respan s) Γ lib.layouts (run (D.respan s) Γ lib depth)
        (f.body.map (Tree.respan s)) = ofBody D Γ lib.layouts (run D Γ lib depth) f.body := by
      rw [ofBody_respan, ofBody, ofBody]
      have hitems : f.body.map (fun t => (t, ofTree (D.respan s) Γ lib.layouts
          (run (D.respan s) Γ lib depth) t)) =
            f.body.map fun t => (t, ofTree D Γ lib.layouts (run D Γ lib depth) t) :=
        List.map_congr_left fun t _ => by
          rw [ofTree_scenery D Γ lib.layouts _ s (run_respan lib depth)]
      rw [hitems]
    rw [respanCallee, run, run, ← hbody]
    rfl

/-- A function that such a tree defines is one that was read, under the same signature. -/
theorem Settled.signature_of_respan {lib : Library} {deps : List Module} {root root' : Tree}
    {names : Names} {forms : List FunctionForm} {m : Module}
    (h : Settled lib deps root names forms m) (hspans : root'.respan default = root.respan default)
    {f : Fun} (hf : f ∈ (Scenery.ofUnit lib.nextId deps root').functions) :
    ∃ form ∈ forms, form.signature = ⟨f.name, f.params, f.result⟩ := by
  have hsame : (Scenery.ofUnit lib.nextId deps root').respan default =
      (Scenery.ofUnit lib.nextId deps root).respan default := by
    rw [← Scenery.ofUnit_respan, ← Scenery.ofUnit_respan, hspans]
  have hmem : Scenery.respanBody default f ∈
      ((Scenery.ofUnit lib.nextId deps root).respan default).functions := by
    rw [← hsame]
    exact List.mem_map_of_mem hf
  rw [Scenery.respan, h.functions, List.map_map] at hmem
  obtain ⟨form, hform, hformf⟩ := List.mem_map.1 hmem
  injection hformf with hname hparams hresult
  exact ⟨form, hform, by rw [← hname, ← hparams, ← hresult]; rfl⟩

/-- And so does the module have one. -/
theorem Settled.function_of_respan {lib : Library} {deps : List Module} {root root' : Tree}
    {names : Names} {forms : List FunctionForm} {m : Module}
    (h : Settled lib deps root names forms m) (hspans : root'.respan default = root.respan default)
    {f : Fun} (hf : f ∈ (Scenery.ofUnit lib.nextId deps root').functions) :
    ∃ g ∈ m.functions, g.name = f.name ∧ g.params = f.params ∧ g.result = f.result := by
  obtain ⟨form, hform, hsignature⟩ := h.signature_of_respan hspans hf
  obtain ⟨g, hg, hgform⟩ := List.mem_map.1
    (h.signatures_functions.symm ▸ List.mem_map_of_mem hform)
  rw [hsignature] at hgform
  injection hgform with hname hparams hresult
  exact ⟨g, hg, hname, hparams, hresult⟩

/-- The functions of the module have the names that such a tree gives them. -/
theorem Settled.names_of_respan {lib : Library} {deps : List Module} {root root' : Tree}
    {names : Names} {forms : List FunctionForm} {m : Module}
    (h : Settled lib deps root names forms m)
    (hspans : root'.respan default = root.respan default) :
    m.functions.map (·.name) = (Scenery.ofUnit lib.nextId deps root').functions.map (·.name) := by
  have hsame : (Scenery.ofUnit lib.nextId deps root').respan default =
      (Scenery.ofUnit lib.nextId deps root).respan default := by
    rw [← Scenery.ofUnit_respan, ← Scenery.ofUnit_respan, hspans]
  have hnames := congrArg (fun D => D.functions.map Fun.name) hsame
  simp only [Scenery.respan, List.map_map] at hnames
  have hrespan : Fun.name ∘ Scenery.respanBody default = Fun.name := rfl
  rw [hrespan] at hnames
  rw [h.names_functions, hnames, h.functions, List.map_map]
  rfl

/-- **A unit that is lowered does what any tree means that differs from it in spans alone.** -/
theorem Settled.handle_of_respan {lib : Library} {deps : List Module} {root root' : Tree}
    {names : Names} {forms : List FunctionForm} {m : Module}
    (h : Settled lib deps root names forms m) (hspans : root'.respan default = root.respan default)
    {f : Fun} (hf : f ∈ (Scenery.ofUnit lib.nextId deps root').functions) :
    ∃ handle, m.handle? f.name = some handle ∧
      ∀ later : Library, later.find? lib.nextId = some m → ∀ depth n, depth < n → ∀ args,
        Run.Follows Eq (invoke later (eval later depth) handle args)
          (run (Scenery.ofUnit lib.nextId deps root') (lib.push m).layouts later n
            (.own f) args) := by
  have hsame : (Scenery.ofUnit lib.nextId deps root').respan default =
      (Scenery.ofUnit lib.nextId deps root).respan default := by
    rw [← Scenery.ofUnit_respan, ← Scenery.ofUnit_respan, hspans]
  have hmem : Scenery.respanBody default f ∈
      ((Scenery.ofUnit lib.nextId deps root).respan default).functions := by
    rw [← hsame]
    exact List.mem_map_of_mem hf
  obtain ⟨g, hg, hgf⟩ := List.mem_map.1 hmem
  obtain ⟨handle, hhandle, hmeaning⟩ := h.handle hg
  refine ⟨handle, ?_, fun later hlater depth n hlt args => ?_⟩
  · have hname : g.name = f.name := (congrArg Fun.name hgf :)
    rw [← hname, hhandle]
  · rw [← run_respan _ _ default, hsame, respanCallee, ← hgf]
    have hg' :=
      run_respan (Scenery.ofUnit lib.nextId deps root)
        (lib.push m).layouts default later n (.own g) args
    rw [respanCallee] at hg'
    rw [hg']
    exact hmeaning later hlater depth n hlt args

end Source

end Kiln
