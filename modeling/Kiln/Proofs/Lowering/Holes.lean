import Kiln.Proofs.Lowering.Structs
/-!
# Lowering looks at every symbol

A symbol with a `$` is a hole that no template has filled. Only names that are declared are looked
through for one; any other symbol of a tree has to mean something for the tree to be lowered, be it
a word of the language, a type, a function, a variable, a global or a field. Where no hole means
anything (`Names.HoleFree`), a tree that is lowered has none: no form passes over a part of its own
(`Lowering.operand_ensures`).
-/

namespace Kiln

variable {α β ε : Type}

/-! ## Names and trees without holes -/

/-- There is no `$` in the name. -/
def HoleFree (name : String) : Prop := '$' ∉ name.toList

instance (name : String) : Decidable (HoleFree name) := inferInstanceAs (Decidable (_ ∉ _))

/-- No symbol of the tree has a `$` in it. -/
def Tree.HoleFree (t : Tree) : Prop := ∀ p ∈ t.symbols, Kiln.HoleFree p.1

theorem holeFree_of_declaredName {t : Tree} {what : Noun} {name : String}
    (h : declaredName t what = .ok name) :
    HoleFree name := by
  intro hmem
  have hnone := (declaredName_eq h).2.2
  rw [List.contains_iff_mem.2 hmem] at hnone
  cases hnone

namespace Tree

theorem holeFree_node {items : List Tree} {s : Span} :
    (node items s).HoleFree ↔ ∀ t ∈ items, t.HoleFree := by
  have hall :
      ∀ ts : List Tree, (∀ p ∈ symbolsAll ts, Kiln.HoleFree p.1) ↔ ∀ t ∈ ts, t.HoleFree := by
    intro ts
    induction ts with
    | nil => exact iff_of_true (fun _ hp => by cases hp) fun _ ht => by cases ht
    | cons t ts ih => rw [symbolsAll, List.forall_mem_append, List.forall_mem_cons, ih]; rfl
  exact hall items

theorem holeFree_of_symbol? {t : Tree} {name : String} (h : t.symbol? = some name)
    (hname : Kiln.HoleFree name) : t.HoleFree := by
  rcases t with ⟨_ | _ | _ | _, s⟩ | ⟨items, s⟩
  case leaf.sym => cases h; exact fun p hp => List.mem_singleton.1 hp ▸ hname
  all_goals cases h

theorem holeFree_of_declaredName {t : Tree} {what : Noun} {name : String}
    (h : declaredName t what = .ok name) :
    t.HoleFree :=
  holeFree_of_symbol? (declaredName_eq h).1 (Kiln.holeFree_of_declaredName h)

/-- A form has no hole if what follows its head has none. -/
theorem holeFree_of_form? {t : Tree} {word : String} {rest : List Tree}
    (h : t.form? word = some rest) (hword : Kiln.HoleFree word) (hrest : ∀ u ∈ rest, u.HoleFree) :
    t.HoleFree := by
  unfold form? at h
  split at h
  · split at h
    · rename_i head items s hhead
      cases h
      exact holeFree_node.2 (List.forall_mem_cons.2 ⟨holeFree_of_symbol? hhead hword, hrest⟩)
    · cases h
  · cases h

end Tree

theorem holeFree_of_lookup {words : List (String × α)} {word : String} {a : α}
    (hwords : ∀ p ∈ words, HoleFree p.1) (h : words.lookup word = some a) : HoleFree word := by
  obtain ⟨before, after, rfl, -⟩ := List.lookup_eq_some_iff.1 h
  exact hwords (word, a) (List.mem_append_right before List.mem_cons_self)

/-- The words that open forms have no hole in them, -/
theorem holeFree_of_ofWord? {word : String} {f : Form} (h : Form.ofWord? word = some f) :
    HoleFree word :=
  holeFree_of_lookup (by decide) h

/-- nor have the operators. -/
theorem holeFree_of_ofSymbol? {word : String} {op : BinaryOp}
    (h : BinaryOp.ofSymbol? word = some op) :
    HoleFree word :=
  holeFree_of_lookup (by decide) h

/-! ## What names mean -/

/-- No hole means anything. -/
structure Names.HoleFree (names : Names) : Prop where
  type : ∀ {name : String} {t : Ty}, names.type? name = some t → Kiln.HoleFree name
  ownGlobal : ∀ {name : String} {g : Nat × Ty}, names.ownGlobal? name = some g → Kiln.HoleFree name
  foreignGlobal : ∀ {name : String} {g : ModuleId × Nat × Ty}, names.foreignGlobal? name = some g →
    Kiln.HoleFree name
  function : ∀ {name : String} {f : Callee × List Param × Ty}, names.function? name = some f →
    Kiln.HoleFree name
  field : ∀ {ref : StructRef} {l : Layout}, names.layouts.find? ref = some l →
    ∀ f ∈ l.fields, Kiln.HoleFree f.name

/-- No variable in scope has a hole for its name. -/
def Locals.HoleFree (ls : Locals) : Prop := ∀ v ∈ ls.scopes.flatten, Kiln.HoleFree v.name

namespace Locals

variable {ls : Locals}

theorem HoleFree.find? {name : String} {v : Local} (h : ls.HoleFree) (hv : ls.find? name = some v) :
    Kiln.HoleFree name := by
  have hname : v.name = name := of_decide_eq_true (List.find?_some hv :)
  exact hname ▸ h v (List.mem_of_find?_eq_some hv)

theorem HoleFree.enter (h : ls.HoleFree) : ls.enter.HoleFree := h

theorem HoleFree.leave (h : ls.HoleFree) : ls.leave.HoleFree := by
  intro v hv
  obtain ⟨scope, hscope, hv⟩ := List.mem_flatten.1 hv
  exact h v (List.mem_flatten.2 ⟨scope, List.mem_of_mem_tail hscope, hv⟩)

theorem HoleFree.declare {name : String} {type : Ty} (h : ls.HoleFree)
    (hname : Kiln.HoleFree name) :
    (ls.declare name type).HoleFree := by
  rcases ls with ⟨_ | ⟨scope, outer⟩, slots⟩
  · exact h
  · exact List.forall_mem_cons.2 ⟨hname, h⟩

end Locals

/-- A type that is spelled has no hole. -/
theorem Tree.holeFree_of_resolveType {names : Names}
    (htype : ∀ {name : String} {t : Ty}, names.type? name = some t → Kiln.HoleFree name)
    {t : Tree} :
    ∀ {type : Ty}, names.resolveType t = .ok type → t.HoleFree := by
  induction t using Tree.inductItems with
  | leaf a s =>
    intro type h
    rcases a with _ | _ | _ | name
    case sym =>
      unfold Names.resolveType at h
      split at h
      · rename_i t ht
        exact Tree.holeFree_of_symbol? rfl (htype ht)
      · cases h
    all_goals cases h
  | node items s ih =>
    intro type h
    rcases items with _ | ⟨head, _ | ⟨inner, _ | ⟨_, _⟩⟩⟩
    case cons.cons.nil =>
      have hinner := @ih inner (List.mem_cons_of_mem _ List.mem_cons_self)
      -- either of the two words before a type
      have hwhole : ∀ {word : String} {found : Ty}, head.symbol? = some word → Kiln.HoleFree word →
          names.resolveType inner = .ok found → (Tree.node [head, inner] s).HoleFree := by
        intro word found hhead hword hfound
        exact Tree.holeFree_node.2 (List.forall_mem_cons.2
          ⟨Tree.holeFree_of_symbol? hhead hword, List.forall_mem_singleton.2 (hinner hfound)⟩)
      unfold Names.resolveType at h
      split at h
      · rename_i hptr
        obtain ⟨found, hfound, -⟩ := ok_of_map h
        exact hwhole hptr (by decide) hfound
      · split at h
        · rename_i hseq
          obtain ⟨found, hfound, -⟩ := ok_of_map h
          exact hwhole hseq (by decide) hfound
        · cases h
    all_goals cases h

/-! ## What goes through -/

/-- Whatever goes through, among variables without holes, leaves such variables and comes to
something of which `Q` holds. -/
def Ensures (x : LowerM α) (Q : α → Prop) : Prop :=
  ∀ ls a ls', ls.HoleFree → x ls = .ok (a, ls') → ls'.HoleFree ∧ Q a

namespace Ensures

variable {P Q : α → Prop} {R : β → Prop} {x : LowerM α}

theorem pure {a : α} (h : Q a) : Ensures (pure a) Q := by
  intro ls _ _ hls hrun
  cases hrun
  exact ⟨hls, h⟩

theorem fail {f : LoweringFault} {s : Span} : Ensures (Lowering.fail f s) Q :=
  fun _ _ _ _ h => by cases h

theorem malformed {form shape : String} {s : Span} :
    Ensures (Lowering.malformed form shape s) Q := fail

/-- **What goes through goes through step by step.** -/
theorem bind {f : α → LowerM β} (hx : Ensures x P) (hf : ∀ a, P a → Ensures (f a) R) :
    Ensures (x >>= f) R := by
  intro ls b ls' hls hrun
  obtain ⟨⟨a, ls₁⟩, hfirst, hrest⟩ :=
    ok_of_bind (hrun : (x ls >>= fun p => f p.1 p.2) = .ok (b, ls'))
  obtain ⟨hls₁, hP⟩ := hx ls a ls₁ hls hfirst
  exact hf a hP ls₁ b ls' hls₁ hrest

theorem mono (h : Ensures x P) (hPQ : ∀ a, P a → Q a) : Ensures x Q := fun ls a ls' hls hrun =>
  (h ls a ls' hls hrun).imp_right (hPQ a)

theorem lift {x : Except LoweringError α} (h : ∀ a, x = .ok a → Q a) :
    Ensures (liftM x : LowerM α) Q := by
  intro ls a ls' hls hrun
  obtain ⟨a', hx, hrest⟩ := ok_of_bind (hrun : (x >>= fun a => .ok (a, ls)) = .ok (a, ls'))
  cases hrest
  exact ⟨hls, h _ hx⟩

theorem get : Ensures (get : LowerM Locals) Locals.HoleFree := by
  intro ls _ _ hls hrun
  cases hrun
  exact ⟨hls, hls⟩

theorem set {ls : Locals} (h : ls.HoleFree) : Ensures (set ls : LowerM PUnit) fun _ => True := by
  intro _ _ _ _ hrun
  cases hrun
  exact ⟨h, trivial⟩

theorem modify {f : Locals → Locals} (hf : ∀ {ls : Locals}, ls.HoleFree → (f ls).HoleFree) :
    Ensures (modify f : LowerM PUnit) fun _ => True := by
  intro _ _ _ hls hrun
  cases hrun
  exact ⟨hf hls, trivial⟩

theorem inScope (h : Ensures x Q) : Ensures (Lowering.inScope x) Q :=
  .bind (.modify Locals.HoleFree.enter) fun _ _ => h.bind fun _ hQ =>
    .bind (.modify Locals.HoleFree.leave) fun _ _ => .pure hQ

end Ensures

/-! ## Expressions -/

namespace Lowering

/-- If the operand goes through its tree has no hole. -/
def Watchful (o : Operand) : Prop := Ensures o.2 fun _ => o.1.HoleFree

variable {names : Names} {o : Operand} {os : List Operand} {s : Span}

theorem items_ensures (hos : ∀ o ∈ os, Watchful o) : ∀ last,
    Ensures (items last os) fun _ => ∀ o ∈ os, o.1.HoleFree := by
  induction os with
  | nil => exact fun _ => .pure fun _ ho => by cases ho
  | cons o os ih =>
    obtain ⟨ho, hos⟩ := List.forall_mem_cons.1 hos
    exact fun _ => ho.bind fun _ hfirst => (ih hos _).bind fun _ hrest =>
      .pure (List.forall_mem_cons.2 ⟨hfirst, hrest⟩)

theorem sequence_ensures (hos : ∀ o ∈ os, Watchful o) :
    Ensures (sequence os) fun _ => ∀ o ∈ os, o.1.HoleFree :=
  .inScope ((items_ensures hos _).bind fun _ h => .pure h)

theorem expect_ensures (ho : Watchful o) (expected : Ty) :
    Ensures (expect o expected) fun _ => o.1.HoleFree := by
  refine ho.bind fun ⟨code, found⟩ h => ?_
  dsimp only
  split
  · exact .pure h
  · exact .fail

theorem expectInteger_ensures (ho : Watchful o) :
    Ensures (expectInteger o) fun _ => o.1.HoleFree := by
  refine ho.bind fun ⟨code, found⟩ h => ?_
  dsimp only
  split
  · exact .pure h
  · exact .fail

theorem expectPointer_ensures (ho : Watchful o) :
    Ensures (expectPointer o) fun _ => o.1.HoleFree := by
  refine ho.bind fun ⟨code, found⟩ h => ?_
  dsimp only
  split
  · exact .pure h
  · exact .fail

theorem expectPlace_ensures (ho : Watchful o) : Ensures (expectPlace o) fun _ => o.1.HoleFree := by
  refine (expectPointer_ensures ho).bind fun ⟨code, target⟩ h => ?_
  dsimp only
  split
  · exact .pure h
  · exact .fail

/-- As many operands as there are types are all gone through. -/
theorem expectAll_ensures (hos : ∀ o ∈ os, Watchful o) : ∀ {ts : List Ty}, ts.length = os.length →
    Ensures (expectAll os ts) fun _ => ∀ o ∈ os, o.1.HoleFree := by
  induction os with
  | nil => exact fun _ => .pure fun _ ho => by cases ho
  | cons o os ih =>
    obtain ⟨ho, hos⟩ := List.forall_mem_cons.1 hos
    rintro (_ | ⟨t, ts⟩) hlength
    · cases hlength
    · exact (expect_ensures ho t).bind
        fun _ hfirst => (ih hos (Nat.succ.inj hlength)).bind fun _ hrest =>
        .pure (List.forall_mem_cons.2 ⟨hfirst, hrest⟩)

theorem arguments_ensures (function : String) (hos : ∀ o ∈ os, Watchful o) : ∀ {ps : List Param},
    ps.length = os.length → Ensures (arguments function ps os) fun _ => ∀ o ∈ os, o.1.HoleFree := by
  induction os with
  | nil =>
    rintro (_ | ⟨p, ps⟩) hlength
    · exact .pure fun _ ho => by cases ho
    · cases hlength
  | cons o os ih =>
    obtain ⟨ho, hos⟩ := List.forall_mem_cons.1 hos
    rintro (_ | ⟨p, ps⟩) hlength
    · cases hlength
    · refine ho.bind fun ⟨code, found⟩ hfirst => ?_
      dsimp only
      split
      · exact (ih hos (Nat.succ.inj hlength)).bind
          fun _ hrest => .pure (List.forall_mem_cons.2 ⟨hfirst, hrest⟩)
      · exact .fail

/-! ### Forms -/

theorem watchful_pair {first second : Operand} (h : ∀ o ∈ [first, second], Watchful o) :
    Watchful first ∧ Watchful second := by
  rwa [List.forall_mem_cons, List.forall_mem_singleton] at h

theorem holeFree_pair {first second : Operand} (h : first.1.HoleFree) (h' : second.1.HoleFree) :
    ∀ o ∈ [first, second], o.1.HoleFree :=
  List.forall_mem_cons.2 ⟨h, List.forall_mem_singleton.2 h'⟩

section Forms

variable (hos : ∀ o ∈ os, Watchful o)

include hos

theorem bind_ensures : Ensures (bind os s) fun _ => ∀ o ∈ os, o.1.HoleFree := by
  rcases os with _ | ⟨⟨target, _⟩, _ | ⟨⟨value, lowering⟩, _ | ⟨_, _⟩⟩⟩
  case cons.cons.nil =>
    refine .bind (.lift fun _ => id) fun symbol hsymbol => ?_
    refine (watchful_pair hos).2.bind fun ⟨code, type⟩ hvalue => ?_
    refine .bind .get fun ls hls => ?_
    refine .bind (.set (hls.declare (holeFree_of_declaredName hsymbol))) fun _ _ => ?_
    exact .pure (holeFree_pair (Tree.holeFree_of_declaredName hsymbol) hvalue)
  all_goals exact .malformed

theorem branch_ensures : Ensures (branch os s) fun _ => ∀ o ∈ os, o.1.HoleFree := by
  rcases os with _ | ⟨cond, _ | ⟨yes, _ | ⟨no, _ | ⟨_, _⟩⟩⟩⟩
  · exact .malformed
  · exact .malformed
  · obtain ⟨hcond, hyes⟩ := watchful_pair hos
    refine (expect_ensures hcond .bool).bind fun _ hcond => ?_
    refine (Ensures.inScope hyes).bind fun ⟨_, _⟩ hyes => ?_
    exact .pure (holeFree_pair hcond hyes)
  · obtain ⟨hcond, hrest⟩ := List.forall_mem_cons.1 hos
    obtain ⟨hyes, hno⟩ := watchful_pair hrest
    refine (expect_ensures hcond .bool).bind fun _ hcond => ?_
    refine (Ensures.inScope hyes).bind fun ⟨_, _⟩ hyes => ?_
    refine (Ensures.inScope hno).bind fun ⟨_, _⟩ hno => ?_
    exact .pure (List.forall_mem_cons.2 ⟨hcond, holeFree_pair hyes hno⟩)
  · exact .malformed

theorem loop_ensures : Ensures (loop os s) fun _ => ∀ o ∈ os, o.1.HoleFree := by
  rcases os with _ | ⟨cond, body⟩
  · exact .malformed
  · obtain ⟨hcond, hbody⟩ := List.forall_mem_cons.1 hos
    refine (expect_ensures hcond .bool).bind fun _ hcond => ?_
    refine (sequence_ensures hbody).bind fun ⟨_, _⟩ hbody => ?_
    exact .pure (List.forall_mem_cons.2 ⟨hcond, hbody⟩)

/-- Truth values that are joined go through one after the other. -/
theorem joined_ensures {join : Code → Code → Code} : ∀ code,
    Ensures (os.foldlM (fun code o => return join code (← expect o .bool)) code)
      fun _ => ∀ o ∈ os, o.1.HoleFree := by
  induction os with
  | nil => exact fun _ => .pure fun _ ho => by cases ho
  | cons o os ih =>
    intro code
    obtain ⟨ho, hos⟩ := List.forall_mem_cons.1 hos
    have hstep : Ensures (do return join code (← expect o .bool)) fun _ => o.1.HoleFree :=
      (expect_ensures ho .bool).bind fun _ h => .pure h
    rw [List.foldlM_cons]
    exact hstep.bind
      fun _ hfirst => (ih hos _).mono fun _ hrest => List.forall_mem_cons.2 ⟨hfirst, hrest⟩

theorem chain_ensures {word : String} {join : Code → Code → Code} :
    Ensures (chain word join os s) fun _ => ∀ o ∈ os, o.1.HoleFree := by
  rcases os with _ | ⟨first, _ | ⟨second, rest⟩⟩
  · exact .malformed
  · exact .malformed
  · obtain ⟨hfirst, hrest⟩ := List.forall_mem_cons.1 hos
    refine (expect_ensures hfirst .bool).bind fun code hfirst => ?_
    refine (joined_ensures hrest code).bind fun _ hrest => ?_
    exact .pure (List.forall_mem_cons.2 ⟨hfirst, hrest⟩)

theorem negation_ensures : Ensures (negation os s) fun _ => ∀ o ∈ os, o.1.HoleFree := by
  rcases os with _ | ⟨value, _ | ⟨_, _⟩⟩
  case cons.nil =>
    refine (expect_ensures (hos value List.mem_cons_self) .bool).bind fun _ h => ?_
    exact .pure (List.forall_mem_singleton.2 h)
  all_goals exact .malformed

theorem load_ensures : Ensures (load os s) fun _ => ∀ o ∈ os, o.1.HoleFree := by
  rcases os with _ | ⟨ptr, _ | ⟨_, _⟩⟩
  case cons.nil =>
    refine (expectPlace_ensures (hos ptr List.mem_cons_self)).bind fun ⟨_, _⟩ h => ?_
    exact .pure (List.forall_mem_singleton.2 h)
  all_goals exact .malformed

theorem store_ensures : Ensures (store os s) fun _ => ∀ o ∈ os, o.1.HoleFree := by
  rcases os with _ | ⟨ptr, _ | ⟨value, _ | ⟨_, _⟩⟩⟩
  case cons.cons.nil =>
    obtain ⟨hptr, hvalue⟩ := watchful_pair hos
    refine (expectPlace_ensures hptr).bind fun ⟨_, type⟩ hptr => ?_
    refine (expect_ensures hvalue type).bind fun _ hvalue => ?_
    exact .pure (holeFree_pair hptr hvalue)
  all_goals exact .malformed

theorem address_ensures : Ensures (address os s) fun _ => ∀ o ∈ os, o.1.HoleFree := by
  rcases os with _ | ⟨ptr, _ | ⟨_, _⟩⟩
  case cons.nil =>
    refine (expectPointer_ensures (hos ptr List.mem_cons_self)).bind fun ⟨_, _⟩ h => ?_
    exact .pure (List.forall_mem_singleton.2 h)
  all_goals exact .malformed

theorem offset_ensures : Ensures (offset names os s) fun _ => ∀ o ∈ os, o.1.HoleFree := by
  rcases os with _ | ⟨ptr, _ | ⟨count, _ | ⟨_, _⟩⟩⟩
  case cons.cons.nil =>
    obtain ⟨hptr, hcount⟩ := watchful_pair hos
    refine (expectPointer_ensures hptr).bind fun ⟨_, _⟩ hptr => ?_
    refine (expectInteger_ensures hcount).bind fun ⟨_, _⟩ hcount => ?_
    exact .pure (holeFree_pair hptr hcount)
  all_goals exact .malformed

theorem length_ensures : Ensures (length os s) fun _ => ∀ o ∈ os, o.1.HoleFree := by
  rcases os with _ | ⟨seq, _ | ⟨_, _⟩⟩
  case cons.nil =>
    refine (hos seq List.mem_cons_self).bind fun ⟨code, found⟩ h => ?_
    cases found with
    | seq elem => exact .pure (List.forall_mem_singleton.2 h)
    | _ => exact .fail
  all_goals exact .malformed

theorem copySequence_ensures : Ensures (copySequence os s) fun _ => ∀ o ∈ os, o.1.HoleFree := by
  rcases os with _ | ⟨dst, _ | ⟨seq, _ | ⟨_, _⟩⟩⟩
  case cons.cons.nil =>
    obtain ⟨hdst, hseq⟩ := watchful_pair hos
    refine (expectPointer_ensures hdst).bind fun ⟨_, target⟩ hdst => ?_
    refine hseq.bind fun ⟨_, found⟩ hseq => ?_
    dsimp only
    split
    · exact .pure (holeFree_pair hdst hseq)
    · exact .fail
  all_goals exact .malformed

theorem binary_ensures (op : BinaryOp) :
    Ensures (binary op os s) fun _ => ∀ o ∈ os, o.1.HoleFree := by
  rcases os with _ | ⟨left, _ | ⟨right, _ | ⟨_, _⟩⟩⟩
  · exact .fail
  · rw [binary]
    split
    · refine (expectInteger_ensures (hos left List.mem_cons_self)).bind fun ⟨_, _⟩ h => ?_
      exact .pure (List.forall_mem_singleton.2 h)
    · exact .fail
  · obtain ⟨hleft, hright⟩ := watchful_pair hos
    refine hleft.bind fun ⟨_, leftType⟩ hleft => hright.bind fun ⟨_, rightType⟩ hright => ?_
    dsimp only
    repeat' split
    all_goals first | exact .fail | exact .pure (holeFree_pair hleft hright)
  · exact .fail

/-! ### Forms with names -/

variable (hnames : names.HoleFree)

include hnames

omit hos in
/-- A field that a struct has is no hole. -/
theorem fieldOf_ensures (ref : StructRef) (t : Tree) :
    Ensures (fieldOf names ref t) fun _ => t.HoleFree := by
  unfold fieldOf
  split
  · rename_i wanted hwanted
    dsimp only
    split
    · rename_i i f hi hf
      refine .pure (Tree.holeFree_of_symbol? hwanted ?_)
      have hname : f.name = wanted := of_decide_eq_true (List.find?_some hf :)
      have hmem := List.mem_of_find?_eq_some hf
      cases hl : names.layouts.find? ref with
      | none =>
        rw [hl] at hmem
        cases hmem
      | some l =>
        rw [hl] at hmem
        exact hname ▸ hnames.field hl f hmem
    · exact .fail
  · exact .fail

omit hos in
theorem name_ensures (symbol : String) :
    Ensures (name names symbol s) fun _ => HoleFree symbol := by
  refine .bind .get fun ls hls => ?_
  split
  · rename_i v hv
    exact .pure (hls.find? hv)
  · split
    · rename_i g hg
      exact .pure (hnames.ownGlobal hg)
    · split
      · rename_i g hg
        exact .pure (hnames.foreignGlobal hg)
      · exact .fail

theorem assign_ensures : Ensures (assign names os s) fun _ => ∀ o ∈ os, o.1.HoleFree := by
  rcases os with _ | ⟨⟨target, lowering⟩, _ | ⟨value, _ | ⟨_, _⟩⟩⟩
  case cons.cons.nil =>
    have hvalue := (watchful_pair hos).2
    unfold assign
    dsimp only
    split
    · rename_i symbol hsymbol
      refine .bind .get fun ls hls => ?_
      split
      · rename_i v hv
        have htarget := Tree.holeFree_of_symbol? hsymbol (hls.find? hv)
        exact (expect_ensures hvalue v.type).bind
          fun _ hvalue => .pure (holeFree_pair htarget hvalue)
      · split
        · rename_i i type hg
          have htarget := Tree.holeFree_of_symbol? hsymbol (hnames.ownGlobal hg)
          exact (expect_ensures hvalue type).bind
            fun _ hvalue => .pure (holeFree_pair htarget hvalue)
        · split
          · exact .fail
          · exact .fail
    · exact .fail
  all_goals exact .malformed

theorem sizeOf_ensures : Ensures (sizeOf names os s) fun _ => ∀ o ∈ os, o.1.HoleFree := by
  rcases os with _ | ⟨⟨spelled, _⟩, _ | ⟨_, _⟩⟩
  case cons.nil =>
    refine .bind (.lift fun _ => id) fun type htype => ?_
    exact .pure (List.forall_mem_singleton.2 (Tree.holeFree_of_resolveType hnames.type htype))
  all_goals exact .malformed

theorem zeroed_ensures : Ensures (zeroed names os s) fun _ => ∀ o ∈ os, o.1.HoleFree := by
  rcases os with _ | ⟨⟨spelled, _⟩, _ | ⟨_, _⟩⟩
  case cons.nil =>
    refine .bind (.lift fun _ => id) fun type htype => ?_
    exact .pure (List.forall_mem_singleton.2 (Tree.holeFree_of_resolveType hnames.type htype))
  all_goals exact .malformed

theorem fieldPointer_ensures :
    Ensures (fieldPointer names os s) fun _ => ∀ o ∈ os, o.1.HoleFree := by
  rcases os with _ | ⟨base, _ | ⟨⟨field, _⟩, _ | ⟨_, _⟩⟩⟩
  case cons.cons.nil =>
    refine (expectPointer_ensures (watchful_pair hos).1).bind fun ⟨_, target⟩ hbase => ?_
    cases target with
    | struct ref =>
      exact (fieldOf_ensures hnames ref field).bind
        fun ⟨_, _⟩ hfield => .pure (holeFree_pair hbase hfield)
    | _ => exact .fail
  all_goals exact .malformed

theorem fieldValue_ensures : Ensures (fieldValue names os s) fun _ => ∀ o ∈ os, o.1.HoleFree := by
  rcases os with _ | ⟨base, _ | ⟨⟨field, _⟩, _ | ⟨_, _⟩⟩⟩
  case cons.cons.nil =>
    refine (watchful_pair hos).1.bind fun ⟨_, type⟩ hbase => ?_
    cases type with
    | struct ref =>
      exact (fieldOf_ensures hnames ref field).bind
        fun ⟨_, _⟩ hfield => .pure (holeFree_pair hbase hfield)
    | _ => exact .fail
  all_goals exact .malformed

theorem make_ensures : Ensures (make names os s) fun _ => ∀ o ∈ os, o.1.HoleFree := by
  rcases os with _ | ⟨⟨spelled, _⟩, values⟩
  · exact .malformed
  · obtain ⟨-, hvalues⟩ := List.forall_mem_cons.1 hos
    refine .bind (.lift fun _ => id) fun type htype => ?_
    have hspelled := Tree.holeFree_of_resolveType hnames.type htype
    cases type with
    | struct ref =>
      dsimp only
      split
      · exact .fail
      · rename_i hlength
        refine (expectAll_ensures hvalues (by rw [List.length_map]; exact not_not.1 hlength)).bind
          fun _ hvalues => ?_
        exact .pure (List.forall_mem_cons.2 ⟨hspelled, hvalues⟩)
    | _ => exact .fail

theorem cast_ensures : Ensures (cast names os s) fun _ => ∀ o ∈ os, o.1.HoleFree := by
  rcases os with _ | ⟨⟨spelled, _⟩, _ | ⟨value, _ | ⟨_, _⟩⟩⟩
  case cons.cons.nil =>
    refine .bind (.lift fun _ => id) fun wanted hwanted => ?_
    refine (watchful_pair hos).2.bind fun ⟨_, found⟩ hvalue => ?_
    dsimp only
    split
    · exact .pure (holeFree_pair (Tree.holeFree_of_resolveType hnames.type hwanted) hvalue)
    · exact .fail
  all_goals exact .malformed

theorem sequenceOf_ensures : Ensures (sequenceOf names os s) fun _ => ∀ o ∈ os, o.1.HoleFree := by
  rcases os with _ | ⟨⟨spelled, _⟩, values⟩
  · exact .malformed
  · obtain ⟨-, hvalues⟩ := List.forall_mem_cons.1 hos
    refine .bind (.lift fun _ => id) fun elem helem => ?_
    have hspelled := Tree.holeFree_of_resolveType hnames.type helem
    split
    · refine (expectAll_ensures hvalues (List.length_map ..)).bind fun _ hvalues => ?_
      exact .pure (List.forall_mem_cons.2 ⟨hspelled, hvalues⟩)
    · exact .fail

/-- **No form passes over a part of its own.** -/
theorem form_ensures (f : Form) : Ensures (form names f os s) fun _ => ∀ o ∈ os, o.1.HoleFree := by
  cases f with
  | sequence => exact sequence_ensures hos
  | bind => exact bind_ensures hos
  | assign => exact assign_ensures hos hnames
  | branch => exact branch_ensures hos
  | loop => exact loop_ensures hos
  | all => exact chain_ensures hos
  | any => exact chain_ensures hos
  | negation => exact negation_ensures hos
  | sizeOf => exact sizeOf_ensures hos hnames
  | zeroed => exact zeroed_ensures hos hnames
  | fieldPointer => exact fieldPointer_ensures hos hnames
  | fieldValue => exact fieldValue_ensures hos hnames
  | make => exact make_ensures hos hnames
  | load => exact load_ensures hos
  | store => exact store_ensures hos
  | cast => exact cast_ensures hos hnames
  | offset => exact offset_ensures hos
  | address => exact address_ensures hos
  | sequenceOf => exact sequenceOf_ensures hos hnames
  | length => exact length_ensures hos
  | copySequence => exact copySequence_ensures hos

/-- A call goes through only of a function that there is. -/
theorem call_ensures (function : String) (head : Tree) :
    Ensures (call names function head os s)
      fun _ => HoleFree function ∧ ∀ o ∈ os, o.1.HoleFree := by
  unfold call
  split
  · rename_i callee params result hfunction
    split
    · exact .fail
    · rename_i hlength
      refine (arguments_ensures function hos (not_not.1 hlength)).bind fun _ h => ?_
      exact .pure ⟨hnames.function hfunction, h⟩
  · exact .fail

/-- A list goes through only with all of its items. -/
theorem ofItems_ensures : Ensures (ofItems names os s) fun _ => ∀ o ∈ os, o.1.HoleFree := by
  rcases os with _ | ⟨⟨head, lowering⟩, args⟩
  · exact .pure fun _ ho => by cases ho
  · obtain ⟨-, hargs⟩ := List.forall_mem_cons.1 hos
    -- the head is a word that means something
    have hwhole : ∀ {word : String} {x : Lowering}, head.symbol? = some word →
        Ensures x (fun _ => HoleFree word ∧ ∀ o ∈ args, o.1.HoleFree) →
          Ensures x fun _ => ∀ o ∈ (head, lowering) :: args, o.1.HoleFree := fun hhead hx =>
      hx.mono fun _ h => List.forall_mem_cons.2 ⟨Tree.holeFree_of_symbol? hhead h.1, h.2⟩
    unfold ofItems
    dsimp only
    split
    · exact .fail
    · rename_i word hhead
      split
      · rename_i op hop
        exact hwhole hhead
          ((binary_ensures hargs op).mono fun _ h => ⟨holeFree_of_ofSymbol? hop, h⟩)
      · rename_i f _ hf
        exact hwhole hhead
          ((form_ensures hargs hnames f).mono fun _ h => ⟨holeFree_of_ofWord? hf, h⟩)
      · exact hwhole hhead (call_ensures hargs hnames word head)

end Forms

/-- **A tree that is lowered where no hole means anything has no hole**, at any place. -/
theorem operand_ensures (hnames : names.HoleFree) (t : Tree) : Watchful (operand names t) := by
  induction t using Tree.inductItems with
  | leaf a s =>
    rcases a with n | b | text | symbol
    case sym => exact (name_ensures hnames symbol).mono fun _ h => Tree.holeFree_of_symbol? rfl h
    all_goals exact .pure fun _ hp => by cases hp
  | node items s ih =>
    have hitems : ∀ o ∈ items.map (operand names), Watchful o := by
      intro o ho
      obtain ⟨t, ht, rfl⟩ := List.mem_map.1 ho
      exact ih t ht
    have hlowered :
        (operand names (.node items s)).2 = ofItems names (items.map (operand names)) s := by
      rw [operand, ofTree, Tree.fold, Tree.foldAll_eq_map]
      rfl
    rw [Watchful, hlowered]
    exact (ofItems_ensures hitems hnames).mono fun _ h =>
      Tree.holeFree_node.2 fun t ht => h _ (List.mem_map_of_mem ht)

end Lowering

end Kiln
