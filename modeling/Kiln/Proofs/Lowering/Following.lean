import Kiln.Lowering.Unit
import Kiln.Proofs.Lowering.Inversion
import Kiln.Proofs.Tree.Matching
/-!
# Lowering twice

Two lowerings of trees that match, the one with names that the other's names serve as well: whatever
the first accepts the second accepts too, with code that is the same but for the functions it calls,
and whatever the first refuses it refuses at a place of its own tree (`ofTree_carried`). The steps
of lowering are taken in pairs, and `Upheld.bind` and `Carried.bind` take rows of them apart.

What this says depends on the relations that it is stated with: `P` between the spans of the trees,
and `R` between the functions that the two codes call.
-/

namespace Kiln

variable {α β γ δ : Type} {P : Span → Span → Prop}

/-- A cause that is the unit's own, and no struct that is too large for the host. -/
def LoweringFault.Told : LoweringFault → Prop
  | oversized _ => False
  | _ => True

theorem LoweringFault.eq_oversized {f : LoweringFault} (h : ¬f.Told) :
    ∃ struct, f = .oversized struct := by
  cases f with
  | oversized struct => exact ⟨struct, rfl⟩
  | _ => exact absurd trivial h

/-- The second accepts what the first accepts, with a related result; the first refuses at a place
that is related to one, and not for what is the host's own fault. -/
inductive Upheld (P : Span → Span → Prop) (R : α → β → Prop) :
    Except LoweringError α → Except LoweringError β → Prop
  | value {a : α} {b : β} : R a b → Upheld P R (.ok a) (.ok b)
  | refused {e : LoweringError} {s' : Span} {y : Except LoweringError β} : P e.span s' →
      e.fault.Told → Upheld P R (.error e) y

namespace Upheld

variable {R : α → β → Prop} {S : γ → δ → Prop} {x : Except LoweringError α}
  {y : Except LoweringError β}

theorem refuse {f : LoweringFault} {s s' : Span} {y : Except LoweringError β} (h : P s s')
    (hf : f.Told) :
    Upheld P R (refuse f s) y := .refused h hf

theorem bind {f : α → Except LoweringError γ} {g : β → Except LoweringError δ} (hx : Upheld P R x y)
    (hf : ∀ a b, R a b → Upheld P S (f a) (g b)) : Upheld P S (x >>= f) (y >>= g) := by
  cases hx with
  | value h => exact hf _ _ h
  | refused h hcause => exact .refused h hcause

theorem map {f : α → γ} {g : β → δ} (hx : Upheld P R x y) (hf : ∀ a b, R a b → S (f a) (g b)) :
    Upheld P S (x.map f) (y.map g) := by
  cases hx with
  | value h => exact .value (hf _ _ h)
  | refused h hcause => exact .refused h hcause

/-- What is accepted once is accepted twice. -/
theorem ok (h : Upheld P R x y) {a : α} (hx : x = .ok a) : ∃ b, y = .ok b ∧ R a b := by
  subst hx
  cases h with
  | value h => exact ⟨_, rfl, h⟩

/-- What is refused is refused for a cause of the unit's own. -/
theorem told (h : Upheld P R x y) {e : LoweringError} (hx : x = .error e) : e.fault.Told := by
  subst hx
  cases h with
  | refused _ hcause => exact hcause

/-- Steps on related elements, one after the other. -/
theorem foldlM {Q : γ → δ → Prop} {f : α → γ → Except LoweringError α}
    {g : β → δ → Except LoweringError β} {cs : List γ} {ds : List δ} (hcs : List.Forall₂ Q cs ds)
    (hf : ∀ a b c d, R a b → Q c d → Upheld P R (f a c) (g b d)) :
    ∀ {a : α} {b : β}, R a b → Upheld P R (cs.foldlM f a) (ds.foldlM g b) := by
  induction hcs with
  | nil => exact fun hab => .value hab
  | cons hcd _ ih =>
    intro a b hab
    rw [List.foldlM_cons, List.foldlM_cons]
    exact (hf _ _ _ _ hab hcd).bind fun _ _ hab => ih hab

/-- A step on each of related elements. -/
theorem mapM {Q : γ → δ → Prop} {f : γ → Except LoweringError α} {g : δ → Except LoweringError β}
    {cs : List γ} {ds : List δ} (hcs : List.Forall₂ Q cs ds)
    (hf : ∀ c d, Q c d → Upheld P R (f c) (g d)) :
    Upheld P (List.Forall₂ R) (cs.mapM f) (ds.mapM g) := by
  induction hcs with
  | nil => exact .value .nil
  | cons hcd _ ih =>
    rw [List.mapM_cons, List.mapM_cons]
    refine (hf _ _ hcd).bind fun _ _ hab => ih.bind fun _ _ habs => ?_
    exact .value (.cons hab habs)

end Upheld

/-- The same, but the host may give up on the first, at a place that is related to one, for the size
of a struct that is as `V` says. -/
inductive UpheldUnless (V : String → Prop) (P : Span → Span → Prop) (R : α → β → Prop)
    (x : Except LoweringError α) (y : Except LoweringError β) : Prop
  | upheld : Upheld P R x y → UpheldUnless V P R x y
  | givenUp {struct : String} {s s' : Span} : x = .error ⟨.oversized struct, s⟩ →
      V struct → P s s' →
      UpheldUnless V P R x y

namespace UpheldUnless

variable {V : String → Prop} {R : α → β → Prop} {S : γ → δ → Prop} {x : Except LoweringError α}
  {y : Except LoweringError β}

theorem bind {f : α → Except LoweringError γ} {g : β → Except LoweringError δ}
    (hx : UpheldUnless V P R x y)
    (hf : ∀ a b, x = .ok a → R a b → UpheldUnless V P S (f a) (g b)) :
    UpheldUnless V P S (x >>= f) (y >>= g) := by
  cases hx with
  | upheld hx =>
    cases hx with
    | value h => exact hf _ _ rfl h
    | refused h hcause => exact .upheld (.refused h hcause)
  | givenUp hx hV h =>
    subst hx
    exact .givenUp rfl hV h

/-- What is accepted once is accepted twice. -/
theorem ok (h : UpheldUnless V P R x y) {a : α} (hx : x = .ok a) : ∃ b, y = .ok b ∧ R a b := by
  subst hx
  cases h with
  | upheld h => exact h.ok rfl
  | givenUp hx _ _ => cases hx

/-- What is refused is refused at a place that is related to one, -/
theorem error (h : UpheldUnless V P R x y) {e : LoweringError} (hx : x = .error e) :
    ∃ s', P e.span s' := by
  subst hx
  cases h with
  | upheld h =>
    cases h with
    | refused h _ => exact ⟨_, h⟩
  | givenUp hx _ h =>
    cases hx
    exact ⟨_, h⟩

/-- and only for the size of a struct that is as `V` says. -/
theorem oversized (h : UpheldUnless V P R x y) {struct : String} {s : Span}
    (hx : x = .error ⟨.oversized struct, s⟩) : V struct := by
  subst hx
  cases h with
  | upheld h => exact (h.told rfl : False).elim
  | givenUp hx hV _ =>
    cases hx
    exact hV

/-- What is known of the struct may come from how the first ends. -/
theorem imp {W : String → Prop} (h : UpheldUnless V P R x y)
    (hW : ∀ struct s, x = .error ⟨.oversized struct, s⟩ → W struct) : UpheldUnless W P R x y := by
  cases h with
  | upheld h => exact .upheld h
  | givenUp hx _ h => exact .givenUp hx (hW _ _ hx) h

/-- Steps on related elements, one after the other. -/
theorem foldlM {Q : γ → δ → Prop} {f : α → γ → Except LoweringError α}
    {g : β → δ → Except LoweringError β} {cs : List γ} {ds : List δ} (hcs : List.Forall₂ Q cs ds)
    (hf : ∀ a b c d, R a b → Q c d → UpheldUnless V P R (f a c) (g b d)) :
    ∀ {a : α} {b : β}, R a b → UpheldUnless V P R (cs.foldlM f a) (ds.foldlM g b) := by
  induction hcs with
  | nil => exact fun hab => .upheld (.value hab)
  | cons hcd _ ih =>
    intro a b hab
    rw [List.foldlM_cons, List.foldlM_cons]
    exact (hf _ _ _ _ hab hcd).bind fun _ _ _ hab => ih hab

end UpheldUnless

/-! ## Code that is alike -/

/-- The codes are the same but for the functions they call, which are related. -/
inductive Code.Like (R : Callee → Callee → Prop) : Code → Code → Prop
  | const (v : Value) : Like R (.const v) (.const v)
  | getLocal (slot : Nat) : Like R (.getLocal slot) (.getLocal slot)
  | setLocal {c c' : Code} (slot : Nat) :
      Like R c c' → Like R (.setLocal slot c) (.setLocal slot c')
  | getGlobal (index : Nat) : Like R (.getGlobal index) (.getGlobal index)
  | setGlobal {c c' : Code} (index : Nat) : Like R c c' →
      Like R (.setGlobal index c) (.setGlobal index c')
  | foreignGlobal (home : ModuleId) (index : Nat) :
      Like R (.foreignGlobal home index) (.foreignGlobal home index)
  | block {cs cs' : List Code} : List.Forall₂ (Like R) cs cs' → Like R (.block cs) (.block cs')
  | when {c c' yes yes' : Code} : Like R c c' → Like R yes yes' →
      Like R (.branch c yes none) (.branch c' yes' none)
  | branch {c c' yes yes' no no' : Code} : Like R c c' → Like R yes yes' → Like R no no' →
      Like R (.branch c yes (some no)) (.branch c' yes' (some no'))
  | loop {c c' d d' : Code} : Like R c c' → Like R d d' → Like R (.loop c d) (.loop c' d')
  | binary {c c' d d' : Code} (op : BinaryOp) : Like R c c' → Like R d d' →
      Like R (.binary op c d) (.binary op c' d')
  | not {c c' : Code} : Like R c c' → Like R (.not c) (.not c')
  | and {c c' d d' : Code} : Like R c c' → Like R d d' → Like R (.and c d) (.and c' d')
  | or {c c' d d' : Code} : Like R c c' → Like R d d' → Like R (.or c d) (.or c' d')
  | call {callee callee' : Callee} {cs cs' : List Code} : R callee callee' →
      List.Forall₂ (Like R) cs cs' → Like R (.call callee cs) (.call callee' cs')
  | fieldPtr {c c' : Code} (offset : UInt64) (t : Ty) : Like R c c' →
      Like R (.fieldPtr c offset t) (.fieldPtr c' offset t)
  | fieldGet {c c' : Code} (index : Nat) :
      Like R c c' → Like R (.fieldGet c index) (.fieldGet c' index)
  | make {cs cs' : List Code} (ref : StructRef) : List.Forall₂ (Like R) cs cs' →
      Like R (.make ref cs) (.make ref cs')
  | load {c c' : Code} (t : Ty) : Like R c c' → Like R (.load c t) (.load c' t)
  | store {c c' d d' : Code} (t : Ty) : Like R c c' → Like R d d' →
      Like R (.store c d t) (.store c' d' t)
  | cast {c c' : Code} (t : Ty) : Like R c c' → Like R (.cast c t) (.cast c' t)
  | offset {c c' d d' : Code} (stride : UInt64) : Like R c c' → Like R d d' →
      Like R (.offset c d stride) (.offset c' d' stride)
  | addr {c c' : Code} : Like R c c' → Like R (.addr c) (.addr c')
  | seqLit {cs cs' : List Code} (elem : Ty) : List.Forall₂ (Like R) cs cs' →
      Like R (.seqLit elem cs) (.seqLit elem cs')
  | seqLen {c c' : Code} : Like R c c' → Like R (.seqLen c) (.seqLen c')
  | seqCopy {c c' d d' : Code} : Like R c c' → Like R d d' → Like R (.seqCopy c d) (.seqCopy c' d')

/-- What two trees come to: codes that are alike, and one type. -/
def AlikeTyped (R : Callee → Callee → Prop) (a b : Code × Ty) : Prop := a.1.Like R b.1 ∧ b.2 = a.2

/-- From the same variables in scope the second lowering upholds the first, and leaves the same. -/
def Carried (P : Span → Span → Prop) (R : α → β → Prop) (x : LowerM α) (y : LowerM β) : Prop :=
  ∀ ls, Upheld P (fun a b => R a.1 b.1 ∧ b.2 = a.2) (x ls) (y ls)

namespace Carried

variable {R : α → β → Prop} {S : γ → δ → Prop} {x : LowerM α} {y : LowerM β}

theorem pure {a : α} {b : β} (h : R a b) : Carried P R (pure a) (pure b) := fun _ => .value ⟨h, rfl⟩

theorem fail {f : LoweringFault} {s s' : Span} {y : LowerM β} (h : P s s')
    (hf : f.Told) :
    Carried P R (Lowering.fail f s) y := fun _ => .refused h hf

theorem malformed {form shape : String} {s s' : Span} {y : LowerM β} (h : P s s') :
    Carried P R (Lowering.malformed form shape s) y := fail h trivial

/-- **Lowerings are carried over step by step.** -/
theorem bind {f : α → LowerM γ} {g : β → LowerM δ} (hx : Carried P R x y)
    (hf : ∀ a b, R a b → Carried P S (f a) (g b)) : Carried P S (x >>= f) (y >>= g) := by
  intro ls
  refine Upheld.bind (hx ls) ?_
  rintro ⟨a, ls₁⟩ ⟨b, ls₂⟩ ⟨hab, hls⟩
  cases hls
  exact hf a b hab ls₁

theorem lift {x : Except LoweringError α} {y : Except LoweringError β} (h : Upheld P R x y) :
    Carried P R (liftM x : LowerM α) (liftM y : LowerM β) :=
  fun _ => h.bind fun _ _ hab => .value ⟨hab, rfl⟩

theorem get : Carried P Eq (get : LowerM Locals) (get : LowerM Locals) :=
  fun _ => .value ⟨rfl, rfl⟩

theorem set (ls : Locals) : Carried P Eq (set ls : LowerM PUnit) (set ls : LowerM PUnit) :=
  fun _ => .value ⟨rfl, rfl⟩

theorem modify (f : Locals → Locals) :
    Carried P Eq (modify f : LowerM PUnit) (modify f : LowerM PUnit) :=
  fun _ => .value ⟨rfl, rfl⟩

theorem inScope (h : Carried P R x y) : Carried P R (Lowering.inScope x) (Lowering.inScope y) := by
  refine .bind (.modify _) fun _ _ _ => h.bind fun a b hab => .bind (.modify _) fun _ _ _ => ?_
  exact .pure hab

/-- Steps on related elements, one after the other. -/
theorem foldlM {Q : γ → δ → Prop} {f : α → γ → LowerM α} {g : β → δ → LowerM β} {cs : List γ}
    {ds : List δ} (hcs : List.Forall₂ Q cs ds)
    (hf : ∀ a b c d, R a b → Q c d → Carried P R (f a c) (g b d)) :
    ∀ {a : α} {b : β}, R a b → Carried P R (cs.foldlM f a) (ds.foldlM g b) := by
  induction hcs with
  | nil => exact fun hab => .pure hab
  | cons hcd _ ih =>
    intro a b hab
    rw [List.foldlM_cons, List.foldlM_cons]
    exact (hf _ _ _ _ hab hcd).bind fun _ _ hab => ih hab

end Carried

/-! ## Names that serve -/

/-- What the first names mean the second mean too, and calls go to functions that are related. -/
structure Names.Serve (R : Callee → Callee → Prop) (names names' : Names) : Prop where
  layouts : names'.layouts = names.layouts
  type : ∀ {name : String} {t : Ty}, names.type? name = some t → names'.type? name = some t
  ownGlobal : ∀ name, names'.ownGlobal? name = names.ownGlobal? name
  foreignGlobal : ∀ {name : String} {g : ModuleId × Nat × Ty}, names.foreignGlobal? name = some g →
    names'.foreignGlobal? name = some g
  function : ∀ {name : String} {callee : Callee} {params : List Param} {result : Ty},
    names.function? name = some (callee, params, result) →
      ∃ callee', names'.function? name = some (callee', params, result) ∧ R callee callee'

/-- A name that may be declared in the one place may be declared in the other. -/
theorem declaredName_upheld {t t' : Tree} (h : t.Matches P t') (what : Noun) :
    Upheld P Eq (declaredName t what) (declaredName t' what) := by
  unfold declaredName
  rw [h.symbol?]
  cases t.symbol? with
  | none => exact .refuse h.span trivial
  | some name =>
    dsimp only
    split
    · exact .refuse h.span trivial
    · split
      · exact .refuse h.span trivial
      · exact .value rfl

theorem pairOf_upheld {t t' : Tree} (h : t.Matches P t') (shape : String) :
    Upheld P (fun a b => a.1.Matches P b.1 ∧ a.2.Matches P b.2) (pairOf t shape)
      (pairOf t' shape) := by
  cases h with
  | leaf h => exact .refuse h trivial
  | node h hitems =>
    rcases hitems with _ | ⟨h₁, _ | ⟨h₂, _ | ⟨_, _⟩⟩⟩
    · exact .refuse h trivial
    · exact .refuse h trivial
    · exact .value ⟨h₁, h₂⟩
    · exact .refuse h trivial

section Types

variable {names names' : Names}
  (htype : ∀ {name : String} {t : Ty}, names.type? name = some t → names'.type? name = some t)

include htype

/-- **A type that is spelled the same means the same.** -/
theorem resolveType_upheld {t : Tree} : ∀ {t' : Tree}, t.Matches P t' →
    Upheld P Eq (names.resolveType t) (names'.resolveType t') := by
  induction t using Tree.inductItems with
  | leaf a s =>
    rintro _ (h | _)
    rcases a with n | b | text | name
    · exact .refuse h trivial
    · exact .refuse h trivial
    · exact .refuse h trivial
    · unfold Names.resolveType
      cases hname : names.type? name with
      | none => exact .refuse h trivial
      | some t =>
        rw [htype hname]
        exact .value rfl
  | node items s ih =>
    rintro _ (_ | ⟨h, hitems⟩)
    rcases hitems with _ | ⟨hhead, _ | ⟨hinner, _ | ⟨_, _⟩⟩⟩
    · exact .refuse h trivial
    · exact .refuse h trivial
    · unfold Names.resolveType
      rw [hhead.symbol?]
      have hrest := ih _ (List.mem_cons_of_mem _ List.mem_cons_self) hinner
      split
      · exact hrest.map fun _ _ heq => congrArg Ty.ptr heq
      · split
        · exact hrest.map fun _ _ heq => congrArg Ty.seq heq
        · exact .refuse h trivial
    · exact .refuse h trivial

end Types

/-! ## Expressions -/

namespace Lowering

/-- Trees that match, with lowerings of which the second carries over the first. -/
def Paired (P : Span → Span → Prop) (R : Callee → Callee → Prop) (o o' : Operand) : Prop :=
  o.1.Matches P o'.1 ∧ Carried P (AlikeTyped R) o.2 o'.2

variable {R : Callee → Callee → Prop} {names names' : Names} {o o' : Operand}
  {os os' : List Operand} {s s' : Span}

/-- Codes of operands, one for each. -/
abbrev CodesAlike (R : Callee → Callee → Prop) : List Code → List Code → Prop :=
  List.Forall₂ (Code.Like R)

theorem items_carried (hos : List.Forall₂ (Paired P R) os os') : ∀ last,
    Carried P (fun a b => CodesAlike R a.1 b.1 ∧ b.2 = a.2) (items last os) (items last os') := by
  induction hos with
  | nil => exact fun _ => .pure ⟨.nil, rfl⟩
  | cons ho _ ih =>
    intro last
    refine ho.2.bind fun ⟨c, t⟩ ⟨c', t'⟩ ⟨hc, ht⟩ => ?_
    cases ht
    refine (ih t).bind fun ⟨cs, t⟩ ⟨cs', t'⟩ ⟨hcs, ht⟩ => ?_
    exact .pure ⟨.cons hc hcs, ht⟩

theorem sequence_carried (hos : List.Forall₂ (Paired P R) os os') :
    Carried P (AlikeTyped R) (sequence os) (sequence os') :=
  .inScope ((items_carried hos _).bind fun _ _ ⟨hcs, ht⟩ => .pure ⟨.block hcs, ht⟩)

theorem expect_carried (ho : Paired P R o o') (expected : Ty) :
    Carried P (Code.Like R) (expect o expected) (expect o' expected) := by
  refine ho.2.bind fun ⟨c, t⟩ ⟨c', t'⟩ ⟨hc, ht⟩ => ?_
  cases ht
  dsimp only
  split
  · exact .pure hc
  · exact .fail ho.1.span trivial

theorem expectInteger_carried (ho : Paired P R o o') :
    Carried P (AlikeTyped R) (expectInteger o) (expectInteger o') := by
  refine ho.2.bind fun ⟨c, t⟩ ⟨c', t'⟩ ⟨hc, ht⟩ => ?_
  cases ht
  dsimp only
  split
  · exact .pure ⟨hc, rfl⟩
  · exact .fail ho.1.span trivial

theorem expectPointer_carried (ho : Paired P R o o') :
    Carried P (AlikeTyped R) (expectPointer o) (expectPointer o') := by
  refine ho.2.bind fun ⟨c, t⟩ ⟨c', t'⟩ ⟨hc, ht⟩ => ?_
  cases ht
  dsimp only
  split
  · exact .pure ⟨hc, rfl⟩
  · exact .fail ho.1.span trivial

theorem expectPlace_carried (ho : Paired P R o o') :
    Carried P (AlikeTyped R) (expectPlace o) (expectPlace o') := by
  refine (expectPointer_carried ho).bind fun ⟨c, t⟩ ⟨c', t'⟩ ⟨hc, ht⟩ => ?_
  cases ht
  dsimp only
  split
  · exact .pure ⟨hc, rfl⟩
  · exact .fail ho.1.span trivial

theorem expectAll_carried (hos : List.Forall₂ (Paired P R) os os') : ∀ ts,
    Carried P (CodesAlike R) (expectAll os ts) (expectAll os' ts) := by
  induction hos with
  | nil => exact fun _ => .pure .nil
  | cons ho _ ih =>
    rintro (_ | ⟨t, ts⟩)
    · exact .pure .nil
    · refine (expect_carried ho t).bind fun _ _ hc => (ih ts).bind fun _ _ hcs => ?_
      exact .pure (.cons hc hcs)

theorem fieldOf_carried (hlayouts : names'.layouts = names.layouts) (ref : StructRef) {t t' : Tree}
    (h : t.Matches P t') : Carried P Eq (fieldOf names ref t) (fieldOf names' ref t') := by
  unfold fieldOf
  rw [h.symbol?, hlayouts]
  cases t.symbol? with
  | none => exact .fail h.span trivial
  | some wanted =>
    dsimp only
    split
    · exact .pure rfl
    · exact .fail h.span trivial

theorem arguments_carried (function : String) (hos : List.Forall₂ (Paired P R) os os') : ∀ ps,
    Carried P (CodesAlike R) (arguments function ps os) (arguments function ps os') := by
  induction hos with
  | nil =>
    rintro (_ | ⟨p, ps⟩)
    · exact .pure .nil
    · exact .pure .nil
  | cons ho _ ih =>
    rintro (_ | ⟨p, ps⟩)
    · exact .pure .nil
    · refine ho.2.bind fun ⟨c, t⟩ ⟨c', t'⟩ ⟨hc, ht⟩ => ?_
      cases ht
      dsimp only
      split
      · exact (ih ps).bind fun _ _ hcs => .pure (.cons hc hcs)
      · exact .fail ho.1.span trivial

/-! ### Forms -/

section Forms

variable (hos : List.Forall₂ (Paired P R) os os') (hs : P s s')

include hos hs

theorem bind_carried : Carried P (AlikeTyped R) (bind os s) (bind os' s') := by
  rcases hos with _ | ⟨htarget, _ | ⟨hvalue, _ | ⟨_, _⟩⟩⟩
  · exact .malformed hs
  · exact .malformed hs
  · refine .bind (.lift (declaredName_upheld htarget.1 .slot)) fun symbol _ heq => ?_
    cases heq
    refine hvalue.2.bind fun ⟨c, t⟩ ⟨c', t'⟩ ⟨hc, ht⟩ => ?_
    cases ht
    refine .bind .get fun ls _ heq => ?_
    cases heq
    refine .bind (.set _) fun _ _ _ => ?_
    exact .pure ⟨.setLocal _ hc, rfl⟩
  · exact .malformed hs

theorem branch_carried : Carried P (AlikeTyped R) (branch os s) (branch os' s') := by
  rcases hos with _ | ⟨hcond, _ | ⟨hyes, _ | ⟨hno, _ | ⟨_, _⟩⟩⟩⟩
  · exact .malformed hs
  · exact .malformed hs
  · refine (expect_carried hcond .bool).bind fun _ _ htest => ?_
    refine (Carried.inScope hyes.2).bind fun ⟨_, _⟩ ⟨_, _⟩ ⟨hyes, _⟩ => ?_
    exact .pure ⟨.when htest hyes, rfl⟩
  · refine (expect_carried hcond .bool).bind fun _ _ htest => ?_
    refine (Carried.inScope hyes.2).bind fun ⟨_, left⟩ ⟨_, _⟩ ⟨hyes, hleft⟩ => ?_
    refine (Carried.inScope hno.2).bind fun ⟨_, right⟩ ⟨_, _⟩ ⟨hno, hright⟩ => ?_
    cases hleft
    cases hright
    exact .pure ⟨.branch htest hyes hno, rfl⟩
  · exact .malformed hs

theorem loop_carried : Carried P (AlikeTyped R) (loop os s) (loop os' s') := by
  rcases hos with _ | ⟨hcond, hbody⟩
  · exact .malformed hs
  · refine (expect_carried hcond .bool).bind fun _ _ htest => ?_
    refine (sequence_carried hbody).bind fun ⟨_, _⟩ ⟨_, _⟩ ⟨hbody, _⟩ => ?_
    exact .pure ⟨.loop htest hbody, rfl⟩

theorem chain_carried (word : String) {join : Code → Code → Code}
    (hjoin : ∀ {c c' d d' : Code}, c.Like R c' → d.Like R d' → (join c d).Like R (join c' d')) :
    Carried P (AlikeTyped R) (chain word join os s) (chain word join os' s') := by
  rcases hos with _ | ⟨hfirst, _ | ⟨hsecond, hrest⟩⟩
  · exact .malformed hs
  · exact .malformed hs
  · refine (expect_carried hfirst .bool).bind fun c c' hc => ?_
    refine Carried.bind (R := Code.Like R) (.foldlM (.cons hsecond hrest) ?_ hc)
      fun _ _ hc => .pure ⟨hc, rfl⟩
    exact fun _ _ _ _ hc ho => (expect_carried ho .bool).bind fun _ _ hd => .pure (hjoin hc hd)

theorem negation_carried : Carried P (AlikeTyped R) (negation os s) (negation os' s') := by
  rcases hos with _ | ⟨hvalue, _ | ⟨_, _⟩⟩
  · exact .malformed hs
  · exact (expect_carried hvalue .bool).bind fun _ _ hc => .pure ⟨.not hc, rfl⟩
  · exact .malformed hs

theorem load_carried : Carried P (AlikeTyped R) (load os s) (load os' s') := by
  rcases hos with _ | ⟨hptr, _ | ⟨_, _⟩⟩
  · exact .malformed hs
  · refine (expectPlace_carried hptr).bind fun ⟨c, t⟩ ⟨c', t'⟩ ⟨hc, ht⟩ => ?_
    cases ht
    exact .pure ⟨.load _ hc, rfl⟩
  · exact .malformed hs

theorem store_carried : Carried P (AlikeTyped R) (store os s) (store os' s') := by
  rcases hos with _ | ⟨hptr, _ | ⟨hvalue, _ | ⟨_, _⟩⟩⟩
  · exact .malformed hs
  · exact .malformed hs
  · refine (expectPlace_carried hptr).bind fun ⟨c, t⟩ ⟨c', t'⟩ ⟨hc, ht⟩ => ?_
    cases ht
    exact (expect_carried hvalue t).bind fun _ _ hd => .pure ⟨.store _ hc hd, rfl⟩
  · exact .malformed hs

theorem address_carried : Carried P (AlikeTyped R) (address os s) (address os' s') := by
  rcases hos with _ | ⟨hptr, _ | ⟨_, _⟩⟩
  · exact .malformed hs
  · exact (expectPointer_carried hptr).bind fun _ _ ⟨hc, _⟩ => .pure ⟨.addr hc, rfl⟩
  · exact .malformed hs

theorem length_carried : Carried P (AlikeTyped R) (length os s) (length os' s') := by
  rcases hos with _ | ⟨hseq, _ | ⟨_, _⟩⟩
  · exact .malformed hs
  · refine hseq.2.bind fun ⟨c, t⟩ ⟨c', t'⟩ ⟨hc, ht⟩ => ?_
    cases ht
    dsimp only
    split
    · exact .pure ⟨.seqLen hc, rfl⟩
    · exact .fail hseq.1.span trivial
  · exact .malformed hs

theorem copySequence_carried :
    Carried P (AlikeTyped R) (copySequence os s) (copySequence os' s') := by
  rcases hos with _ | ⟨hdst, _ | ⟨hseq, _ | ⟨_, _⟩⟩⟩
  · exact .malformed hs
  · exact .malformed hs
  · refine (expectPointer_carried hdst).bind fun ⟨c, t⟩ ⟨c', t'⟩ ⟨hc, ht⟩ => ?_
    cases ht
    refine hseq.2.bind fun ⟨d, u⟩ ⟨d', u'⟩ ⟨hd, hu⟩ => ?_
    cases hu
    dsimp only
    split
    · exact .pure ⟨.seqCopy hc hd, rfl⟩
    · exact .fail hseq.1.span trivial
  · exact .malformed hs

theorem binary_carried (op : BinaryOp) :
    Carried P (AlikeTyped R) (binary op os s) (binary op os' s') := by
  rcases hos with _ | ⟨hleft, _ | ⟨hright, _ | ⟨_, _⟩⟩⟩
  · exact .fail hs trivial
  · unfold binary
    dsimp only
    split
    · refine (expectInteger_carried hleft).bind fun ⟨c, t⟩ ⟨c', t'⟩ ⟨hc, ht⟩ => ?_
      cases ht
      exact .pure ⟨.binary _ (.const _) hc, rfl⟩
    · exact .fail hs trivial
  · refine hleft.2.bind fun ⟨c, t⟩ ⟨c', t'⟩ ⟨hc, ht⟩ => ?_
    cases ht
    refine hright.2.bind fun ⟨d, u⟩ ⟨d', u'⟩ ⟨hd, hu⟩ => ?_
    cases hu
    dsimp only
    split
    · split
      · exact .pure ⟨.binary op hc hd, rfl⟩
      · exact .fail hs trivial
    · split
      · exact .fail hleft.1.span trivial
      · split
        · exact .fail hright.1.span trivial
        · exact .pure ⟨.binary op hc hd, rfl⟩
  · exact .fail hs trivial

/-! ### Forms that look at names -/

variable (hnames : names.Serve R names')

include hnames

theorem assign_carried : Carried P (AlikeTyped R) (assign names os s) (assign names' os' s') := by
  rcases hos with _ | ⟨htarget, _ | ⟨hvalue, _ | ⟨_, _⟩⟩⟩
  · exact .malformed hs
  · exact .malformed hs
  · unfold assign
    dsimp only
    rw [htarget.1.symbol?]
    split
    · refine .bind .get fun ls _ heq => ?_
      cases heq
      split
      · exact (expect_carried hvalue _).bind fun _ _ hc => .pure ⟨.setLocal _ hc, rfl⟩
      · rw [hnames.ownGlobal]
        split
        · exact (expect_carried hvalue _).bind fun _ _ hc => .pure ⟨.setGlobal _ hc, rfl⟩
        · split
          · exact .fail htarget.1.span trivial
          · exact .fail htarget.1.span trivial
    · exact .fail htarget.1.span trivial
  · exact .malformed hs

theorem sizeOf_carried : Carried P (AlikeTyped R) (sizeOf names os s) (sizeOf names' os' s') := by
  rcases hos with _ | ⟨hspelled, _ | ⟨_, _⟩⟩
  · exact .malformed hs
  · refine .bind (.lift (resolveType_upheld hnames.type hspelled.1)) fun t _ heq => ?_
    cases heq
    rw [hnames.layouts]
    exact .pure ⟨.const _, rfl⟩
  · exact .malformed hs

theorem zeroed_carried : Carried P (AlikeTyped R) (zeroed names os s) (zeroed names' os' s') := by
  rcases hos with _ | ⟨hspelled, _ | ⟨_, _⟩⟩
  · exact .malformed hs
  · refine .bind (.lift (resolveType_upheld hnames.type hspelled.1)) fun t _ heq => ?_
    cases heq
    rw [hnames.layouts]
    exact .pure ⟨.const _, rfl⟩
  · exact .malformed hs

theorem fieldPointer_carried :
    Carried P (AlikeTyped R) (fieldPointer names os s) (fieldPointer names' os' s') := by
  rcases hos with _ | ⟨hbase, _ | ⟨hfield, _ | ⟨_, _⟩⟩⟩
  · exact .malformed hs
  · exact .malformed hs
  · refine (expectPointer_carried hbase).bind fun ⟨c, t⟩ ⟨c', t'⟩ ⟨hc, ht⟩ => ?_
    cases ht
    dsimp only
    split
    · refine (fieldOf_carried hnames.layouts _ hfield.1).bind fun _ _ heq => ?_
      cases heq
      exact .pure ⟨.fieldPtr _ _ hc, rfl⟩
    · exact .fail hbase.1.span trivial
  · exact .malformed hs

theorem fieldValue_carried :
    Carried P (AlikeTyped R) (fieldValue names os s) (fieldValue names' os' s') := by
  rcases hos with _ | ⟨hbase, _ | ⟨hfield, _ | ⟨_, _⟩⟩⟩
  · exact .malformed hs
  · exact .malformed hs
  · refine hbase.2.bind fun ⟨c, t⟩ ⟨c', t'⟩ ⟨hc, ht⟩ => ?_
    cases ht
    dsimp only
    split
    · refine (fieldOf_carried hnames.layouts _ hfield.1).bind fun _ _ heq => ?_
      cases heq
      exact .pure ⟨.fieldGet _ hc, rfl⟩
    · exact .fail hbase.1.span trivial
  · exact .malformed hs

theorem make_carried : Carried P (AlikeTyped R) (make names os s) (make names' os' s') := by
  rcases hos with _ | ⟨hspelled, hvalues⟩
  · exact .malformed hs
  · refine .bind (.lift (resolveType_upheld hnames.type hspelled.1)) fun t _ heq => ?_
    cases heq
    split
    · dsimp only
      rw [hnames.layouts, hvalues.length_eq]
      split
      · exact .fail hs trivial
      · exact (expectAll_carried hvalues _).bind fun _ _ hcs => .pure ⟨.make _ hcs, rfl⟩
    · exact .fail hspelled.1.span trivial

theorem cast_carried : Carried P (AlikeTyped R) (cast names os s) (cast names' os' s') := by
  rcases hos with _ | ⟨hspelled, _ | ⟨hvalue, _ | ⟨_, _⟩⟩⟩
  · exact .malformed hs
  · exact .malformed hs
  · refine .bind (.lift (resolveType_upheld hnames.type hspelled.1)) fun wanted _ heq => ?_
    cases heq
    refine hvalue.2.bind fun ⟨c, t⟩ ⟨c', t'⟩ ⟨hc, ht⟩ => ?_
    cases ht
    dsimp only
    split
    · exact .pure ⟨.cast _ hc, rfl⟩
    · exact .fail hs trivial
  · exact .malformed hs

theorem offset_carried : Carried P (AlikeTyped R) (offset names os s) (offset names' os' s') := by
  rcases hos with _ | ⟨hptr, _ | ⟨hcount, _ | ⟨_, _⟩⟩⟩
  · exact .malformed hs
  · exact .malformed hs
  · refine (expectPointer_carried hptr).bind fun ⟨c, t⟩ ⟨c', t'⟩ ⟨hc, ht⟩ => ?_
    cases ht
    refine (expectInteger_carried hcount).bind fun _ _ ⟨hn, _⟩ => ?_
    dsimp only
    rw [hnames.layouts]
    exact .pure ⟨.offset _ hc hn, rfl⟩
  · exact .malformed hs

theorem sequenceOf_carried :
    Carried P (AlikeTyped R) (sequenceOf names os s) (sequenceOf names' os' s') := by
  rcases hos with _ | ⟨hspelled, hvalues⟩
  · exact .malformed hs
  · refine .bind (.lift (resolveType_upheld hnames.type hspelled.1)) fun elem _ heq => ?_
    cases heq
    split
    · rw [List.map_const', List.map_const', hvalues.length_eq]
      exact (expectAll_carried hvalues _).bind fun _ _ hcs => .pure ⟨.seqLit _ hcs, rfl⟩
    · exact .fail hspelled.1.span trivial

theorem form_carried (f : Form) :
    Carried P (AlikeTyped R) (form names f os s) (form names' f os' s') := by
  cases f with
  | sequence => exact sequence_carried hos
  | bind => exact bind_carried hos hs
  | assign => exact assign_carried hos hs hnames
  | branch => exact branch_carried hos hs
  | loop => exact loop_carried hos hs
  | all => exact chain_carried hos hs "and" .and
  | any => exact chain_carried hos hs "or" .or
  | negation => exact negation_carried hos hs
  | sizeOf => exact sizeOf_carried hos hs hnames
  | zeroed => exact zeroed_carried hos hs hnames
  | fieldPointer => exact fieldPointer_carried hos hs hnames
  | fieldValue => exact fieldValue_carried hos hs hnames
  | make => exact make_carried hos hs hnames
  | load => exact load_carried hos hs
  | store => exact store_carried hos hs
  | cast => exact cast_carried hos hs hnames
  | offset => exact offset_carried hos hs hnames
  | address => exact address_carried hos hs
  | sequenceOf => exact sequenceOf_carried hos hs hnames
  | length => exact length_carried hos hs
  | copySequence => exact copySequence_carried hos hs

theorem call_carried (function : String) {head head' : Tree} (hhead : head.Matches P head') :
    Carried P (AlikeTyped R) (call names function head os s)
      (call names' function head' os' s') := by
  unfold call
  cases hfunction : names.function? function with
  | none => exact .fail hhead.span trivial
  | some found =>
    obtain ⟨callee, params, result⟩ := found
    obtain ⟨callee', hfunction', hcallee⟩ := hnames.function hfunction
    rw [hfunction', hos.length_eq]
    dsimp only
    split
    · exact .fail hs trivial
    · exact (arguments_carried function hos params).bind
        fun _ _ hcs => .pure ⟨.call hcallee hcs, rfl⟩

end Forms

section Trees

variable (hnames : names.Serve R names')

include hnames

theorem ofAtom_carried (a : Atom) (hs : P s s') :
    Carried P (AlikeTyped R) (ofAtom names a s) (ofAtom names' a s') := by
  cases a with
  | int n => exact .pure ⟨.const _, rfl⟩
  | bool b => exact .pure ⟨.const _, rfl⟩
  | str text => exact .pure ⟨.const _, rfl⟩
  | sym symbol =>
    refine .bind .get fun ls _ heq => ?_
    cases heq
    split
    · exact .pure ⟨.getLocal _, rfl⟩
    · rw [hnames.ownGlobal]
      split
      · exact .pure ⟨.getGlobal _, rfl⟩
      · cases hforeign : names.foreignGlobal? symbol with
        | none => exact .fail hs trivial
        | some g =>
          rw [hnames.foreignGlobal hforeign]
          exact .pure ⟨.foreignGlobal _ _, rfl⟩

theorem ofItems_carried (hos : List.Forall₂ (Paired P R) os os') (hs : P s s') :
    Carried P (AlikeTyped R) (ofItems names os s) (ofItems names' os' s') := by
  rcases hos with _ | @⟨⟨head, _⟩, ⟨head', _⟩, _, _, hhead, hrest⟩
  · exact .pure ⟨.const _, rfl⟩
  · have hsymbol : head'.symbol? = head.symbol? := hhead.1.symbol?
    unfold ofItems
    dsimp only
    rw [hsymbol]
    split
    · exact .fail hhead.1.span trivial
    · split
      · exact binary_carried hrest hs _
      · exact form_carried hrest hs hnames _
      · exact call_carried hrest hs hnames _ hhead.1

/-- **What one of two matching trees comes to the other comes to as well**, where it stands for the
same variables. -/
theorem ofTree_carried {t : Tree} : ∀ {t' : Tree}, t.Matches P t' →
    Carried P (AlikeTyped R) (ofTree names t) (ofTree names' t') := by
  induction t using Tree.inductItems with
  | leaf a s =>
    rintro _ (h | _)
    exact ofAtom_carried hnames a h
  | node items s ih =>
    rintro _ (_ | ⟨h, hitems⟩)
    unfold ofTree Tree.fold
    rw [Tree.foldAll_eq_map, Tree.foldAll_eq_map]
    refine ofItems_carried hnames (List.forall₂_map_left_iff.2 (List.forall₂_map_right_iff.2 ?_)) h
    exact List.forall₂_iff_get.2 ⟨hitems.length_eq, fun i hi hi' =>
      ⟨hitems.get hi hi', ih _ (List.get_mem _ _) (hitems.get hi hi')⟩⟩

theorem operands_paired {ts ts' : List Tree} (h : List.Forall₂ (Tree.Matches P) ts ts') :
    List.Forall₂ (Paired P R) (ts.map (operand names)) (ts'.map (operand names')) :=
  List.forall₂_map_left_iff.2 (List.forall₂_map_right_iff.2
    (h.imp fun _ _ ht => ⟨ht, ofTree_carried hnames ht⟩))

end Trees

end Lowering

end Kiln
