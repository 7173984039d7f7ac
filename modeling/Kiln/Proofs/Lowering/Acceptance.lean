import Kiln.Proofs.Lowering.Reordering
/-!
# What lowering accepts

Lowering refuses a tree for what it finds of types alone: those of the variables in scope
(`Context`) and those that names mean. So there are rules by which a tree is of a type in a context
(`Names.Types`), one for each form that the containers of this library are written with, and a
function whose body is of a type by these rules is lowered (`Names.exists_lowerFunction`). A rule
says of its first tree alone which word it is (`Tree.isForm`), whatever the spans are.
-/

namespace Kiln

variable {α β : Type}

/-- Where each of some elements is related to something, they are related to something together. -/
theorem exists_forall₂ {R : α → β → Prop} {as : List α} (h : ∀ a ∈ as, ∃ b, R a b) :
    ∃ bs, List.Forall₂ R as bs := by
  induction as with
  | nil => exact ⟨[], .nil⟩
  | cons a as ih =>
    obtain ⟨b, hb⟩ := h a List.mem_cons_self
    obtain ⟨bs, hbs⟩ := ih fun c hc => h c (List.mem_cons_of_mem a hc)
    exact ⟨b :: bs, .cons hb hbs⟩

/-! ## Variables in scope -/

/-- The variables in scope with their types: the innermost scope first, each with its latest
variable first. -/
abbrev Context := List (List (String × Ty))

namespace Context

/-- The type of the variable that a name means. -/
def find? (G : Context) (name : String) : Option Ty := (G.flatten.find? (·.1 = name)).map (·.2)

/-- One variable more, in the innermost scope. -/
def declare : Context → String → Ty → Context
  | scope :: outer, name, t => ((name, t) :: scope) :: outer
  | [], _, _ => []

end Context

namespace Locals

variable {ls : Locals}

/-- The variables in scope, whatever slots they have. -/
def context (ls : Locals) : Context := ls.scopes.map (·.map fun v => (v.name, v.type))

theorem find?_context (name : String) : ls.context.find? name = (ls.find? name).map (·.type) := by
  rw [context, Context.find?, ← List.map_flatten, List.find?_map, Option.map_map]
  rfl

theorem context_declare (name : String) (t : Ty) :
    (ls.declare name t).context = ls.context.declare name t := by
  rcases ls with ⟨_ | ⟨scope, outer⟩, slots⟩ <;> rfl

theorem context_leave {scope : List (String × Ty)} {G : Context} (h : ls.context = scope :: G) :
    ls.leave.context = G := by
  rw [context, leave, List.map_tail, ← context, h]
  rfl

/-- The scope of a function's parameters. -/
theorem context_params (params : List Param) :
    (params.foldl (fun ls p => ls.declare p.1 p.2) Locals.empty).context = [params.reverse] := by
  have hfold : ∀ (ls : Locals) (scope : List (String × Ty)), ls.context = [scope] →
      (params.foldl (fun ls p => ls.declare p.1 p.2) ls).context = [params.reverse ++ scope] := by
    induction params with
    | nil => exact fun ls scope h => h
    | cons p params ih =>
      intro ls scope h
      rw [List.foldl_cons, ih _ (p :: scope), List.reverse_cons, List.append_assoc]
      · rfl
      · rw [context_declare, h]
        rfl
  rw [hfold empty [] rfl, List.append_nil]

end Locals

namespace Lowering

/-- In the first context lowering goes through, whatever slots are taken. What it gives is as said,
and it leaves the second context. -/
def Goes (G : Context) (x : LowerM α) (P : α → Prop) (G' : Context) : Prop :=
  ∀ ls : Locals, ls.context = G → ∃ a ls', x.run ls = .ok (a, ls') ∧ P a ∧ ls'.context = G'

namespace Goes

variable {G G₁ G' : Context} {x : LowerM α} {f : α → LowerM β} {P : α → Prop} {Q : β → Prop} {a : α}

theorem pure (h : P a) : Goes G (Pure.pure a) P G := fun ls hls => ⟨a, ls, rfl, h, hls⟩

theorem bind (hx : Goes G x P G₁) (hf : ∀ a, P a → Goes G₁ (f a) Q G') : Goes G (x >>= f) Q G' := by
  intro ls hls
  obtain ⟨a, ls₁, hrun, hP, hls₁⟩ := hx ls hls
  obtain ⟨b, ls', hrun', hQ, hls'⟩ := hf a hP ls₁ hls₁
  refine ⟨b, ls', ?_, hQ, hls'⟩
  rw [StateT.run_bind, hrun]
  exact hrun'

/-- What is refused or not without a look at variables. -/
theorem lift {y : Except LoweringError α} (hy : y = .ok a) (h : P a) :
    Goes G (liftM y : LowerM α) P G := by
  subst hy
  exact .pure h

/-- What is in scope may be looked at. -/
theorem get {Q : Locals → Prop} (h : ∀ ls : Locals, ls.context = G → Q ls) :
    Goes G (MonadState.get : LowerM Locals) Q G := fun ls hls => ⟨ls, ls, rfl, h ls hls, hls⟩

/-- A scope of its own is closed again. -/
theorem inScope {scope : List (String × Ty)} (h : Goes ([] :: G) x P (scope :: G)) :
    Goes G (Lowering.inScope x) P G := by
  intro ls hls
  have henter : ls.enter.context = [] :: G := congrArg ([] :: ·) hls
  obtain ⟨a, ls', hrun, hP, hls'⟩ := h ls.enter henter
  refine ⟨a, ls'.leave, ?_, hP, Locals.context_leave hls'⟩
  show (x.run ls.enter >>= fun p => _) = _
  rw [hrun]
  rfl

end Goes

end Lowering

open Lowering

/-! ## Types of trees -/

/-- The tree opens the form. -/
def Tree.isForm (t : Tree) (f : Form) : Bool :=
  match t.symbol? with
  | some word => (BinaryOp.ofSymbol? word).isNone && Form.ofWord? word = some f
  | none => false

/-- The struct is laid out, with these fields. -/
def Layouts.HasFields (Γ : Layouts) (ref : StructRef) (fields : List (String × Ty)) : Prop :=
  ∃ l, Γ.find? ref = some l ∧ l.fields.map (fun f => (f.name, f.type)) = fields

namespace Names

variable {names : Names} {G : Context}

/-- The tree is of the type. -/
def Types (names : Names) (G : Context) (t : Tree) (type : Ty) : Prop :=
  Goes G (ofTree names t) (·.2 = type) G

/-- The tree can be taken for a value of the type. -/
def Suits (names : Names) (G : Context) (t : Tree) (type : Ty) : Prop :=
  ∃ found, names.Types G t found ∧ isAssignable type found = true

theorem Suits.of_types {t : Tree} {type : Ty} (h : names.Types G t type) : names.Suits G t type :=
  ⟨type, h, isAssignable_self type⟩

section Operands

variable {t : Tree} {type target : Ty}

theorem Suits.expect (h : names.Suits G t type) :
    Goes G (Lowering.expect (operand names t) type) (fun _ => True) G := by
  obtain ⟨found, ht, hle⟩ := h
  refine ht.bind fun ⟨code, _⟩ heq => ?_
  cases heq
  dsimp only
  rw [if_pos hle]
  exact .pure trivial

theorem Types.expectInteger (h : names.Types G t type) (hinteger : type.isInteger = true) :
    Goes G (Lowering.expectInteger (operand names t)) (·.2 = type) G := by
  refine h.bind fun ⟨code, _⟩ heq => ?_
  cases heq
  dsimp only
  rw [if_pos hinteger]
  exact .pure rfl

theorem Types.expectPointer (h : names.Types G t (.ptr target)) :
    Goes G (Lowering.expectPointer (operand names t)) (·.2 = target) G := by
  refine h.bind fun ⟨code, _⟩ heq => ?_
  cases heq
  exact .pure rfl

theorem Types.expectPlace (h : names.Types G t (.ptr target))
    (hstorable : target.isStorable = true) :
    Goes G (Lowering.expectPlace (operand names t)) (·.2 = target) G := by
  refine h.expectPointer.bind fun ⟨code, _⟩ heq => ?_
  cases heq
  dsimp only
  rw [if_pos hstorable]
  exact .pure rfl

theorem goes_expectAll {ts : List Tree} {types : List Ty}
    (h : List.Forall₂ (names.Suits G) ts types) :
    Goes G (expectAll (ts.map (operand names)) types) (fun _ => True) G := by
  induction h with
  | nil => exact .pure trivial
  | cons ht _ ih => exact ht.expect.bind fun _ _ => ih.bind fun _ _ => .pure trivial

theorem goes_arguments {function : String} {params : List Param} {ts : List Tree}
    (h : List.Forall₂ (fun t (p : Param) => names.Suits G t p.2) ts params) :
    Goes G (arguments function params (ts.map (operand names))) (fun _ => True) G := by
  induction h with
  | nil => exact .pure trivial
  | cons ht _ ih =>
    obtain ⟨found, ht, hle⟩ := ht
    refine ht.bind fun ⟨code, _⟩ heq => ?_
    cases heq
    dsimp only
    rw [if_pos hle]
    exact ih.bind fun _ _ => .pure trivial

/-- A field that the struct has. -/
theorem goes_fieldOf {ref : StructRef} {fields : List (String × Ty)} {field : String} {s : Span}
    (hfields : names.layouts.HasFields ref fields)
    (hfind : fields.find? (·.1 = field) = some (field, type)) :
    Goes G (fieldOf names ref (.leaf (.sym field) s)) (·.2.type = type) G := by
  obtain ⟨l, hl, rfl⟩ := hfields
  rw [List.find?_map] at hfind
  obtain ⟨f, hf, heq⟩ := Option.map_eq_some_iff.1 hfind
  have hname : f.name = field := congrArg Prod.fst heq
  obtain ⟨i, hi⟩ : ∃ i, l.fieldIndex? field = some i := by
    cases hi : l.fieldIndex? field with
    | none =>
      exact absurd hname
        (of_decide_eq_false (List.findIdx?_eq_none_iff.1 hi f (List.mem_of_find?_eq_some hf)))
    | some i => exact ⟨i, rfl⟩
  have hfound : l.field? field = some f := hf
  unfold fieldOf
  dsimp only [Tree.symbol?]
  rw [hl, Option.getD_some, hi, hfound]
  exact .pure (congrArg Prod.snd heq)

end Operands

section Lists

variable {G' : Context} {s : Span} {P : Code × Ty → Prop}

theorem goes_node {items : List Tree}
    (h : Goes G (ofItems names (items.map (operand names)) s) P G') :
    Goes G (ofTree names (.node items s)) P G' := by
  rw [ofTree, Tree.fold, Tree.foldAll_eq_map]
  exact h

theorem goes_form {f : Form} {head : Tree} {args : List Tree} (hhead : head.isForm f = true)
    (h : Goes G (form names f (args.map (operand names)) s) P G') :
    Goes G (ofTree names (.node (head :: args) s)) P G' := by
  refine goes_node ?_
  unfold Tree.isForm at hhead
  split at hhead
  · rename_i word hword
    rw [Bool.and_eq_true, decide_eq_true_eq, Option.isNone_iff_eq_none] at hhead
    simp only [List.map_cons, operand, ofItems, hword, hhead.1, hhead.2]
    exact h
  · cases hhead

end Lists

/-! ### Rules -/

namespace Types

variable {head t u : Tree} {name : String} {s : Span} {type elem target : Ty} {ref : StructRef}
  {fields : List (String × Ty)}

/-- A number is of the widest signed type. -/
theorem number (n : Int64) : names.Types G (.leaf (.int n) s) .i64 := .pure rfl

/-- A name means the variable that is in scope. -/
theorem slot (h : G.find? name = some type) : names.Types G (.leaf (.sym name) s) type := by
  refine (Goes.get fun ls hls => hls).bind fun ls hls => ?_
  rw [← hls, Locals.find?_context] at h
  obtain ⟨v, hv, rfl⟩ := Option.map_eq_some_iff.1 h
  rw [hv]
  exact .pure rfl

/-- It means the unit's own global where no variable hides that. -/
theorem ownGlobal {i : Nat} (h : G.find? name = none)
    (hglobal : names.ownGlobal? name = some (i, type)) :
    names.Types G (.leaf (.sym name) s) type := by
  refine (Goes.get fun ls hls => hls).bind fun ls hls => ?_
  rw [← hls, Locals.find?_context, Option.map_eq_none_iff] at h
  rw [h, hglobal]
  exact .pure rfl

/-- An operator between numbers, -/
theorem binary {word : String} {op : BinaryOp} {left right : Ty} (hhead : head.symbol? = some word)
    (hop : BinaryOp.ofSymbol? word = some op) (hequality : op.isEquality = false)
    (ht : names.Types G t left) (hleft : left.isInteger = true) (hu : names.Types G u right)
    (hright : right.isInteger = true) :
    names.Types G (.node [head, t, u] s) (if op.isArithmetic then left else .bool) := by
  refine goes_node ?_
  simp only [List.map_cons, List.map_nil, operand, ofItems, hhead, hop]
  refine ht.bind fun ⟨a, _⟩ heq => ?_
  cases heq
  refine hu.bind fun ⟨b, _⟩ heq => ?_
  cases heq
  simp only [hequality, hleft, hright, Bool.not_true, Bool.false_eq_true, if_false]
  exact .pure rfl

/-- which reckons with them -/
theorem arithmetic {word : String} {op : BinaryOp} {right : Ty} (hhead : head.symbol? = some word)
    (hop : BinaryOp.ofSymbol? word = some op) (harithmetic : op.isArithmetic = true)
    (ht : names.Types G t type) (hleft : type.isInteger = true) (hu : names.Types G u right)
    (hright : right.isInteger = true) :
    names.Types G (.node [head, t, u] s) type := by
  have hequality : op.isEquality = false := by cases op <;> first | rfl | cases harithmetic
  have htypes := binary (s := s) hhead hop hequality ht hleft hu hright
  rwa [if_pos harithmetic] at htypes

/-- or compares them. -/
theorem ordering {word : String} {op : BinaryOp} {left right : Ty}
    (hhead : head.symbol? = some word) (hop : BinaryOp.ofSymbol? word = some op)
    (hequality : op.isEquality = false) (harithmetic : op.isArithmetic = false)
    (ht : names.Types G t left) (hleft : left.isInteger = true) (hu : names.Types G u right)
    (hright : right.isInteger = true) : names.Types G (.node [head, t, u] s) .bool := by
  have htypes := binary (s := s) hhead hop hequality ht hleft hu hright
  rwa [harithmetic, if_neg Bool.false_ne_true] at htypes

/-- A call of a function with what its parameters ask for. -/
theorem call {word : String} {callee : Callee} {params : List Param} {args : List Tree}
    (hhead : head.symbol? = some word) (hop : BinaryOp.ofSymbol? word = none)
    (hform : Form.ofWord? word = none)
    (hfunction : names.function? word = some (callee, params, type))
    (hargs : List.Forall₂ (fun t (p : Param) => names.Suits G t p.2) args params) :
    names.Types G (.node (head :: args) s) type := by
  refine goes_node ?_
  simp only [List.map_cons, operand, ofItems, hhead, hop, hform]
  unfold Lowering.call
  rw [hfunction]
  dsimp only
  rw [if_neg (by rw [List.length_map, hargs.length_eq]; exact fun hne => hne rfl)]
  exact (goes_arguments hargs).bind fun _ _ => .pure rfl

theorem sizeOf (hhead : head.isForm .sizeOf = true) (ht : names.resolveType t = .ok type) :
    names.Types G (.node [head, t] s) .u64 :=
  goes_form hhead ((Goes.lift ht rfl).bind fun _ _ => .pure rfl)

/-- The address of a field. -/
theorem fieldPointer {field : String} {s' : Span} (hhead : head.isForm .fieldPointer = true)
    (ht : names.Types G t (.ptr (.struct ref))) (hfields : names.layouts.HasFields ref fields)
    (hfind : fields.find? (·.1 = field) = some (field, type)) :
    names.Types G (.node [head, t, .leaf (.sym field) s'] s) (.ptr type) := by
  refine goes_form hhead (ht.expectPointer.bind fun ⟨code, _⟩ heq => ?_)
  cases heq
  refine (goes_fieldOf hfields hfind).bind fun ⟨i, f⟩ heq => ?_
  exact .pure (congrArg Ty.ptr heq)

/-- A field of a value. -/
theorem fieldValue {field : String} {s' : Span} (hhead : head.isForm .fieldValue = true)
    (ht : names.Types G t (.struct ref)) (hfields : names.layouts.HasFields ref fields)
    (hfind : fields.find? (·.1 = field) = some (field, type)) :
    names.Types G (.node [head, t, .leaf (.sym field) s'] s) type := by
  refine goes_form hhead (ht.bind fun ⟨code, _⟩ heq => ?_)
  cases heq
  exact (goes_fieldOf hfields hfind).bind fun ⟨i, f⟩ heq => .pure heq

theorem make {values : List Tree} (hhead : head.isForm .make = true)
    (ht : names.resolveType t = .ok (.struct ref)) (hfields : names.layouts.HasFields ref fields)
    (hvalues : List.Forall₂ (names.Suits G) values (fields.map (·.2))) :
    names.Types G (.node (head :: t :: values) s) (.struct ref) := by
  refine goes_form hhead ((Goes.lift ht rfl).bind fun _ heq => ?_)
  cases heq
  obtain ⟨l, hl, rfl⟩ := hfields
  rw [List.map_map] at hvalues
  have hlength := hvalues.length_eq
  rw [List.length_map] at hlength
  dsimp only
  rw [hl, Option.map_some, Option.getD_some, List.length_map, hlength, if_neg (fun hne => hne rfl)]
  exact (goes_expectAll hvalues).bind fun _ _ => .pure rfl

theorem load (hhead : head.isForm .load = true) (ht : names.Types G t (.ptr target))
    (hstorable : target.isStorable = true) : names.Types G (.node [head, t] s) target := by
  refine goes_form hhead ((ht.expectPlace hstorable).bind fun ⟨code, _⟩ heq => ?_)
  exact .pure heq

theorem store (hhead : head.isForm .store = true) (ht : names.Types G t (.ptr target))
    (hstorable : target.isStorable = true) (hu : names.Suits G u target) :
    names.Types G (.node [head, t, u] s) .unit := by
  refine goes_form hhead ((ht.expectPlace hstorable).bind fun ⟨code, _⟩ heq => ?_)
  cases heq
  exact hu.expect.bind fun _ _ => .pure rfl

theorem cast {found : Ty} (hhead : head.isForm .cast = true) (ht : names.resolveType t = .ok type)
    (hu : names.Types G u found) (hcast : isCastable found type = true) :
    names.Types G (.node [head, t, u] s) type := by
  refine goes_form hhead ((Goes.lift ht rfl).bind fun _ heq => ?_)
  cases heq
  refine hu.bind fun ⟨code, _⟩ heq => ?_
  cases heq
  dsimp only
  rw [if_pos hcast]
  exact .pure rfl

theorem offset {count : Ty} (hhead : head.isForm .offset = true)
    (ht : names.Types G t (.ptr target)) (hu : names.Types G u count)
    (hinteger : count.isInteger = true) :
    names.Types G (.node [head, t, u] s) (.ptr target) := by
  refine goes_form hhead (ht.expectPointer.bind fun ⟨code, _⟩ heq => ?_)
  cases heq
  exact (hu.expectInteger hinteger).bind fun _ _ => .pure rfl

theorem address (hhead : head.isForm .address = true) (ht : names.Types G t (.ptr target)) :
    names.Types G (.node [head, t] s) .u64 :=
  goes_form hhead (ht.expectPointer.bind fun _ _ => .pure rfl)

theorem length (hhead : head.isForm .length = true) (ht : names.Types G t (.seq elem)) :
    names.Types G (.node [head, t] s) .u64 := by
  refine goes_form hhead (ht.bind fun ⟨code, _⟩ heq => ?_)
  cases heq
  exact .pure rfl

theorem copySequence (hhead : head.isForm .copySequence = true) (ht : names.Types G t (.ptr elem))
    (hu : names.Types G u (.seq elem)) : names.Types G (.node [head, t, u] s) .unit := by
  refine goes_form hhead (ht.expectPointer.bind fun ⟨code, _⟩ heq => ?_)
  cases heq
  refine hu.bind fun ⟨code', _⟩ heq => ?_
  cases heq
  dsimp only
  rw [if_pos rfl]
  exact .pure rfl

/-- A global of the unit's own is set. -/
theorem assign {i : Nat} {s' : Span} (hhead : head.isForm .assign = true) (h : G.find? name = none)
    (hglobal : names.ownGlobal? name = some (i, type)) (hu : names.Suits G u type) :
    names.Types G (.node [head, .leaf (.sym name) s', u] s) .unit := by
  refine goes_form hhead ?_
  dsimp only [Lowering.form, Lowering.assign, List.map_cons, List.map_nil, operand, Tree.symbol?]
  refine (Goes.get fun ls hls => hls).bind fun ls hls => ?_
  rw [← hls, Locals.find?_context, Option.map_eq_none_iff] at h
  rw [h, hglobal]
  exact hu.expect.bind fun _ _ => .pure rfl

/-- What is done in one case alone has no value. -/
theorem when {yes : Tree} (hhead : head.isForm .branch = true) (ht : names.Suits G t .bool)
    (hyes : names.Types ([] :: G) yes type) : names.Types G (.node [head, t, yes] s) .unit :=
  goes_form hhead (ht.expect.bind fun _ _ => (Goes.inScope hyes).bind fun _ _ => .pure rfl)

/-- Branches of one type are a value of it. -/
theorem branch {yes no : Tree} (hhead : head.isForm .branch = true) (ht : names.Suits G t .bool)
    (hyes : names.Types ([] :: G) yes type) (hno : names.Types ([] :: G) no type) :
    names.Types G (.node [head, t, yes, no] s) type := by
  refine goes_form hhead (ht.expect.bind fun _ _ => (Goes.inScope hyes).bind fun ⟨_, _⟩ heq => ?_)
  cases heq
  refine (Goes.inScope hno).bind fun ⟨_, _⟩ heq => ?_
  cases heq
  exact .pure (if_pos (by simp))

end Types

/-! ## Rows of trees -/

/-- The trees are lowered one after the other, with the variables that some of them bind, and the
last of them has the type; where there is none that is the type given. -/
inductive Row (names : Names) : Context → Ty → List Tree → Ty → Prop
  | nil {G : Context} {last : Ty} : Row names G last [] last
  | value {G : Context} {last found type : Ty} {t : Tree} {ts : List Tree} : names.Types G t found →
      Row names G found ts type → Row names G last (t :: ts) type
  | bind {G : Context} {last found type : Ty} {head target t : Tree} {name : String} {s : Span}
      {ts : List Tree} :
      head.isForm .bind = true → declaredName target .slot = .ok name → names.Types G t found →
        Row names (G.declare name found) .unit ts type →
          Row names G last (.node [head, target, t] s :: ts) type

/-- A binding adds its variable to those in scope. -/
theorem goes_bind {head target t : Tree} {name : String} {s : Span} {found : Ty}
    (hhead : head.isForm .bind = true) (hname : declaredName target .slot = .ok name)
    (ht : names.Types G t found) :
    Goes G (ofTree names (.node [head, target, t] s)) (·.2 = .unit) (G.declare name found) := by
  refine goes_form hhead ((Goes.lift hname rfl).bind fun _ heq => ?_)
  cases heq
  refine ht.bind fun ⟨code, _⟩ heq => ?_
  cases heq
  intro ls hls
  refine ⟨_, _, rfl, rfl, ?_⟩
  rw [Locals.context_declare, hls]

/-- **A row of trees goes through**, and nothing but the innermost scope changes. -/
theorem Row.goes {G : Context} {last type : Ty} {ts : List Tree} (h : names.Row G last ts type) :
    ∀ {scope : List (String × Ty)} {outer : Context}, G = scope :: outer → ∃ scope',
      Goes G (items last (ts.map (operand names))) (·.2 = type) (scope' :: outer) := by
  induction h with
  | nil =>
    rintro scope outer rfl
    exact ⟨scope, .pure rfl⟩
  | value ht _ ih =>
    rintro scope outer rfl
    obtain ⟨scope', hrest⟩ := ih rfl
    refine ⟨scope', ht.bind fun ⟨code, _⟩ heq => ?_⟩
    cases heq
    exact hrest.bind fun ⟨codes, _⟩ heq => .pure heq
  | bind hhead hname ht _ ih =>
    rintro scope outer rfl
    obtain ⟨scope', hrest⟩ := ih rfl
    refine ⟨scope', (goes_bind hhead hname ht).bind fun ⟨code, _⟩ heq => ?_⟩
    cases heq
    exact hrest.bind fun ⟨codes, _⟩ heq => .pure heq

/-- A row in a scope of its own. -/
theorem Row.goes_sequence {type : Ty} {ts : List Tree} (h : names.Row ([] :: G) .unit ts type) :
    Goes G (sequence (ts.map (operand names))) (·.2 = type) G := by
  obtain ⟨scope', hitems⟩ := h.goes rfl
  exact Goes.inScope (hitems.bind fun ⟨codes, _⟩ heq => .pure heq)

theorem Types.sequence {head : Tree} {s : Span} {type : Ty} {ts : List Tree}
    (hhead : head.isForm .sequence = true) (h : names.Row ([] :: G) .unit ts type) :
    names.Types G (.node (head :: ts) s) type :=
  goes_form hhead h.goes_sequence

/-! ## Functions and globals -/

/-- **A function is lowered whose body is of a type that can be taken for its result**, or that
returns nothing. -/
theorem exists_lowerFunction {f : FunctionForm} {type : Ty}
    (hbody : names.Row [[], f.signature.params.reverse] .unit f.body type)
    (hresult : f.signature.result = .unit ∨ isAssignable f.signature.result type = true) :
    ∃ g, names.lowerFunction f = .ok g := by
  obtain ⟨⟨code, _⟩, ls, hrun, heq, -⟩ :=
    hbody.goes_sequence _ (Locals.context_params f.signature.params)
  cases heq
  unfold lowerFunction
  dsimp only
  rw [hrun]
  dsimp only [Bind.bind, Except.bind]
  split
  · exact ⟨_, rfl⟩
  · rename_i hunit
    rw [if_pos (hresult.resolve_left hunit)]
    exact ⟨_, rfl⟩

/-- **So is a global** whose initialiser is of a type that can be taken for its own. -/
theorem exists_lowerGlobal {g : GlobalForm} (hinit : names.Suits [[]] g.init g.global.type) :
    ∃ i, names.lowerGlobal g = .ok i := by
  obtain ⟨found, ht, hle⟩ := hinit
  obtain ⟨⟨code, _⟩, ls, hrun, heq, -⟩ := ht Locals.empty rfl
  cases heq
  unfold lowerGlobal
  rw [hrun]
  dsimp only [Bind.bind, Except.bind]
  rw [if_pos hle]
  exact ⟨_, rfl⟩

/-! ## What names mean -/

/-- A function of the unit is called by its name. -/
theorem function?_of_mem (hnodup : (names.signatures.map (·.name)).Nodup) {sig : Signature}
    (hsig : sig ∈ names.signatures) :
    ∃ callee, names.function? sig.name = some (callee, sig.params, sig.result) := by
  unfold function?
  cases hi : names.signatures.findIdx? (·.name = sig.name) with
  | none => exact absurd rfl (of_decide_eq_false (List.findIdx?_eq_none_iff.1 hi sig hsig))
  | some i =>
    obtain ⟨hlt, hat, -⟩ := List.findIdx?_eq_some_iff_getElem.1 hi
    have hsame : names.signatures[i] = sig :=
      List.inj_on_of_nodup_map hnodup (List.getElem_mem hlt) hsig (of_decide_eq_true hat)
    exact ⟨.own i,
      Option.bind_eq_some_iff.2 ⟨sig, by rw [List.getElem?_eq_getElem hlt, hsame], rfl⟩⟩

/-- A name that no function of the unit or of a dependency has is one of the base library. -/
theorem function?_base {name : String} {i : Nat} {f : Function}
    (hown : name ∉ names.signatures.map (·.name))
    (hdeps : ∀ m ∈ names.deps, name ∉ m.functions.map (·.name))
    (hi : Module.base.functionIndex? name = some i) (hf : Module.base.functions[i]? = some f) :
    names.function? name = some (.foreign ⟨0⟩ i, f.params, f.result) := by
  have hnew : ∀ {sig : Signature}, sig ∈ names.signatures → decide (sig.name = name) = false :=
    fun hsig => decide_eq_false fun heq => hown (heq ▸ List.mem_map_of_mem hsig)
  have hnone : names.deps.findSome? (fun m => do
      let i ← m.functionIndex? name
      let f ← m.functions[i]?
      return (Callee.foreign m.id i, f.params, f.result)) = none := by
    rw [List.findSome?_eq_none_iff]
    intro m hm
    have hnot : m.functionIndex? name = none := List.findIdx?_eq_none_iff.2 fun f hf =>
      decide_eq_false fun heq => hdeps m hm (heq ▸ List.mem_map_of_mem hf)
    rw [hnot]
    rfl
  unfold function?
  rw [List.findIdx?_eq_none_iff.2 fun sig hsig => hnew hsig]
  dsimp only
  rw [List.findSome?_append, hnone, Option.none_or, List.findSome?_singleton, hi]
  dsimp only [Option.bind_eq_bind, Option.bind_some]
  rw [hf]
  rfl

/-- The tree declares the parameter. -/
def DefinesParam (names : Names) (t : Tree) (p : Param) : Prop :=
  ∃ nameTree typeTree, pairOf t "(param Type)" = .ok (nameTree, typeTree) ∧
    declaredName nameTree .parameter = .ok p.1 ∧ names.resolveType typeTree = .ok p.2

/-- What is added to parameters by one more. -/
theorem param_ok_iff {before after : List Param} {t : Tree} : names.param before t = .ok after ↔
    ∃ p, names.DefinesParam t p ∧ p.1 ∉ before.map (·.1) ∧ after = before ++ [p] := by
  have hany : ∀ name, before.any (·.1 == name) = true ↔ name ∈ before.map (·.1) := by simp
  constructor
  · intro h
    obtain ⟨⟨nameTree, typeTree⟩, hpair, h⟩ := ok_of_bind h
    obtain ⟨name, hname, h⟩ := ok_of_bind h
    split at h
    · cases h
    · rename_i hnew
      obtain ⟨type, htype, h⟩ := ok_of_bind h
      cases h
      exact ⟨(name, type), ⟨nameTree, typeTree, hpair, hname, htype⟩,
        fun hmem => hnew ((hany name).2 hmem), rfl⟩
  · rintro ⟨⟨name, type⟩, ⟨nameTree, typeTree, hpair, hname, htype⟩, hnew, rfl⟩
    unfold param
    rw [hpair]
    show (declaredName nameTree .parameter >>= _) = _
    rw [hname]
    show (if before.any (·.1 == name) then _ else _) = _
    rw [if_neg fun hmem => hnew ((hany name).1 hmem), htype]
    rfl

/-- Parameters are declared one by one, each under a name of its own. -/
theorem params_ok_iff {trees : List Tree} {params : List Param} :
    trees.foldlM names.param [] = .ok params ↔
    List.Forall₂ names.DefinesParam trees params ∧ (params.map (·.1)).Nodup :=
  foldlM_added (f := names.param) (S := names.DefinesParam) fun _ _ _ => param_ok_iff

/-- **A struct that is laid out has the layout that its fields ask for**, those that it is read
with. -/
theorem LaidOut.layout_of_reads {forms : List StructForm} {structs : List StructDef}
    (hlaid : names.LaidOut forms structs) (hnames : names.Outlines forms)
    (hnodup : (forms.map (·.name)).Nodup) {form : StructForm} (hform : form ∈ forms)
    (hdone : form.name ∈ structs.map (·.name)) {fields : List (String × Ty)}
    (hread : names.ReadsFields form fields) :
    ∃ l, (names.withStructs structs).layouts.find? ⟨names.home, form.name⟩ = some l ∧
      Layout.ofFields? (names.withStructs structs).layouts fields = some l := by
  obtain ⟨d, hd, hname⟩ := List.mem_map.1 hdone
  obtain ⟨before, form', fields', hends⟩ := hlaid.ends hnames d hd
  obtain rfl := List.inj_on_of_nodup_map hnodup hends.mem hform (hends.name.symm.trans hname)
  obtain rfl := eq_of_reads hends.holds hread
  refine ⟨d.layout, ?_, hends.layout⟩
  rw [withStructs]
  dsimp only
  rw [if_pos rfl, ← hname, find?_of_nodup hlaid.nodup hd]
  rfl

/-- So it has these fields. -/
theorem hasFields_of_layOutAll {forms : List StructForm} {structs : List StructDef}
    (hnames : names.Outlines forms) (hnodup : (forms.map (·.name)).Nodup)
    (h : layOutAll names forms = .ok structs) {form : StructForm}
    (hform : form ∈ forms) {fields : List (String × Ty)} (hread : names.ReadsFields form fields) :
    (names.withStructs structs).layouts.HasFields ⟨names.home, form.name⟩ fields := by
  obtain ⟨hlaid, hall⟩ := layOutAll_laidOut h
  obtain ⟨l, hfound, hmade⟩ := hlaid.layout_of_reads hnames hnodup hform (hall form hform) hread
  exact ⟨l, hfound, Layout.named_ofFields? hmade⟩

end Names

/-! ## Units -/

/-- **A unit is lowered whose definitions go through one by one.** -/
theorem exists_lowerUnit {lib : Library} {deps : List Module} {root : Tree} {o : Outline}
    {structs : List StructDef} {forms : List FunctionForm} {globals : List GlobalForm}
    (ho : o.Sorts (definitions root))
    (hstructs : layOutAll (o.names lib deps) o.structs = .ok structs)
    (hforms : List.Forall₂ ((o.names lib deps).withStructs structs).DefinesFunction
      o.functions forms)
    (hnodup : (forms.map (·.signature.name)).Nodup)
    (hglobals : o.globals.foldlM ((o.names lib deps).withStructs structs).global [] = .ok globals)
    (hbodies : ∀ f ∈ forms, ∃ g,
      (((o.names lib deps).withStructs structs).withDefinitions forms globals).lowerFunction f =
      .ok g)
    (hinits : ∀ g ∈ globals, ∃ i,
      (((o.names lib deps).withStructs structs).withDefinitions forms globals).lowerGlobal g =
      .ok i) (name : String) :
    ∃ functions initialisers, functions.map (·.name) = forms.map (·.signature.name) ∧
      initialisers.length = globals.length ∧ lowerUnit lib name deps root =
        .ok ⟨⟨lib.nextId, name, deps.map (·.id), functions, structs, globals.map (·.global)⟩,
          initialisers⟩ := by
  obtain ⟨functions, hfunctions⟩ := exists_forall₂ hbodies
  obtain ⟨initialisers, hinitialisers⟩ := exists_forall₂ hinits
  have hfold := (foldlM_added (f := ((o.names lib deps).withStructs structs).function)
    fun _ _ _ => Names.function_ok_iff).2 ⟨hforms, hnodup⟩
  exact ⟨functions, initialisers, (names_of_lowerFunction hfunctions).trans (List.map_map ..),
    hinitialisers.length_eq.symm, lowerUnit_of_passes
      (Outline.ofUnit_ok_iff.2 ho) hstructs hfold hglobals hfunctions hinitialisers name⟩

end Kiln
