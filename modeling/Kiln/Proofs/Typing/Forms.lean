import Kiln.Proofs.Typing.Scopes
/-!
# Lowering gives typed code

What lowers an expression, if it does not refuse it, gives code of the type that it says
(`Interface.Knows.types`), in a frame whose slots have the types of the variables that own them.
Each form of the language keeps what holds of its operands; only `and` and `or` ask that the
operands behind the first declare nothing around them, unless slots may be read unassigned.
-/

namespace Kiln

variable {α β : Type} {P : Interface} {home : ModuleId} {quiet : Prop}

/-- What lowers an expression gives code of the type that it says. -/
def Types (P : Interface) (home : ModuleId) (quiet : Prop) (x : Lowering) : Prop :=
  Makes P quiet (fun slots A p B => HasType P home slots A p.1 p.2 B) x

/-- The same of each operand of a list. -/
def AllTypes (P : Interface) (home : ModuleId) (quiet : Prop) (os : List Operand) : Prop :=
  ∀ o ∈ os, Types P home quiet o.2

theorem AllTypes.tail {o : Operand} {os : List Operand} (h : AllTypes P home quiet (o :: os)) :
    AllTypes P home quiet os := fun p hp => h p (List.mem_cons_of_mem o hp)

theorem isAssignable_bool {t : Ty} (h : isAssignable .bool t = true) : t = .bool := by
  cases t <;> first | rfl | cases h

/-! ## Operands that have to be of some kind -/

namespace Types

variable {o : Operand} (h : Types P home quiet o.2)

include h

theorem expect (t : Ty) :
    Makes P quiet (fun slots A c B => ∃ u, HasType P home slots A c u B ∧ isAssignable t u = true)
      (Lowering.expect o t) := by
  refine Makes.map h fun ⟨code, found⟩ => ?_
  dsimp only
  split
  · rename_i hassign
    exact .pure fun slots A B hc => ⟨found, hc, hassign⟩
  · exact .fail _ _

theorem expectBool : Makes P quiet (fun slots A c B => HasType P home slots A c .bool B)
    (Lowering.expect o .bool) :=
  (h.expect .bool).imp fun _ _ _ _ ⟨_, hc, hassign⟩ => isAssignable_bool hassign ▸ hc

theorem expectInteger :
    Makes P quiet (fun slots A p B => HasType P home slots A p.1 p.2 B ∧ p.2.isInteger = true)
      (Lowering.expectInteger o) := by
  refine Makes.map h fun ⟨code, found⟩ => ?_
  dsimp only
  split
  · rename_i hint
    exact .pure fun slots A B hc => ⟨hc, hint⟩
  · exact .fail _ _

theorem expectPointer :
    Makes P quiet (fun slots A p B => HasType P home slots A p.1 (.ptr p.2) B)
      (Lowering.expectPointer o) := by
  refine Makes.map h fun ⟨code, found⟩ => ?_
  dsimp only
  split
  · exact .pure fun slots A B hc => hc
  · exact .fail _ _

theorem expectPlace :
    Makes P quiet (fun slots A p B => HasType P home slots A p.1 (.ptr p.2) B)
      (Lowering.expectPlace o) := by
  refine Makes.map h.expectPointer fun ⟨code, target⟩ => ?_
  dsimp only
  split
  · exact .pure fun slots A B hc => hc
  · exact .fail _ _

end Types

/-! ## Operands that follow each other -/

namespace AllTypes

theorem items : ∀ {os : List Operand}, AllTypes P home quiet os → ∀ last : Ty,
    Makes P quiet
      (fun slots A p B => ∃ ts, HasTypes P home slots A p.1 ts B ∧ p.2 = ts.getLastD last)
      (Lowering.items last os)
  | [], _, last => .pure fun slots A => ⟨[], .nil, rfl⟩
  | o :: os, h, last => by
    refine Makes.bind (h o List.mem_cons_self) (S := fun p slots B q D => ∃ cs ts, q.1 = p.1 :: cs ∧
      HasTypes P home slots B cs ts D ∧ q.2 = ts.getLastD p.2)
      (fun ⟨code, type⟩ => (h.tail.items type).map fun ⟨codes, t⟩ => ?_) ?_
    · exact .pure fun slots A B ⟨ts, hcs, ht⟩ => ⟨codes, ts, rfl, hcs, ht⟩
    · rintro slots A ⟨code, type⟩ B ⟨_, t⟩ D hc ⟨cs, ts, rfl, hcs, ht⟩
      exact ⟨type :: ts, .cons hc hcs, by rw [List.getLastD_cons]; exact ht⟩

theorem expectAll : ∀ {os : List Operand}, AllTypes P home quiet os → ∀ {ts : List Ty},
    ts.length = os.length →
      Makes P quiet
        (fun slots A cs B => ∃ us, HasTypes P home slots A cs us B ∧ AllAssignable ts us)
        (Lowering.expectAll os ts)
  | [], _, [], _ => .pure fun slots A => ⟨[], .nil, .nil⟩
  | o :: os, h, t :: ts, hlen => by
    refine Makes.bind ((h o List.mem_cons_self).expect t) (S := fun c slots B cs D => ∃ rest us,
      cs = c :: rest ∧ HasTypes P home slots B rest us D ∧ AllAssignable ts us)
      (fun code => (h.tail.expectAll (Nat.succ.inj hlen)).map fun codes => ?_) ?_
    · exact .pure fun slots A B ⟨us, hcs, hassign⟩ => ⟨codes, us, rfl, hcs, hassign⟩
    · rintro slots A code B _ D ⟨u, hc, hassign⟩ ⟨rest, us, rfl, hcs, hrest⟩
      exact ⟨u :: us, .cons hc hcs, .cons hassign hrest⟩

theorem arguments (function : String) : ∀ {os : List Operand}, AllTypes P home quiet os →
    ∀ {params : List Param}, params.length = os.length →
      Makes P quiet (fun slots A cs B => ∃ us, HasTypes P home slots A cs us B ∧
        AllAssignable (params.map (·.2)) us) (Lowering.arguments function params os)
  | [], _, [], _ => .pure fun slots A => ⟨[], .nil, .nil⟩
  | o :: os, h, p :: params, hlen => by
    refine Makes.bind (h o List.mem_cons_self) (S := fun q slots B cs D => ∃ rest us,
      cs = q.1 :: rest ∧ isAssignable p.2 q.2 = true ∧ HasTypes P home slots B rest us D ∧
        AllAssignable (params.map (·.2)) us) (fun ⟨code, found⟩ => ?_) ?_
    · dsimp only
      split
      · rename_i hassign
        exact (h.tail.arguments function (Nat.succ.inj hlen)).map fun codes =>
          .pure fun slots A B ⟨us, hcs, hrest⟩ => ⟨codes, us, rfl, hassign, hcs, hrest⟩
      · exact .fail _ _
    · rintro slots A ⟨code, found⟩ B _ D hc ⟨rest, us, rfl, hassign, hcs, hrest⟩
      exact ⟨found :: us, .cons hc hcs, .cons hassign hrest⟩

/-- A sequence has a scope of its own. -/
theorem sequence {os : List Operand} (h : AllTypes P home quiet os) :
    Types P home True (Lowering.sequence os) := by
  have hbody :
      Types P home quiet (Lowering.items .unit os >>= fun p => pure (.block p.1, p.2)) := by
    refine (h.items .unit).map fun ⟨codes, t⟩ => .pure fun slots A B ⟨ts, hcs, ht⟩ => ?_
    rw [show t = ts.getLastD .unit from ht]
    exact .block hcs
  exact hbody.inScope

end AllTypes

/-! ## Names and variables -/

/-- What the names of a unit mean is what the interface has: the structs that are laid out, the
types that can be spelled, which all have zeros, the globals and the functions. -/
structure Interface.Knows (P : Interface) (names : Names) : Prop where
  mixed : P.laxity.mixed
  layouts : names.layouts.Within P.layouts
  grounded : ∀ {tree : Tree} {t : Ty}, names.resolveType tree = .ok t →
    t.Grounded names.layouts names.layouts.count
  ownGlobal : ∀ {name : String} {i : Nat} {t : Ty}, names.ownGlobal? name = some (i, t) →
    P.global names.home i = some t
  foreignGlobal : ∀ {name : String} {other : ModuleId} {i : Nat} {t : Ty},
    names.foreignGlobal? name = some (other, i, t) → P.global other i = some t
  function : ∀ {name : String} {callee : Callee} {params : List Param} {result : Ty},
    names.function? name = some (callee, params, result) →
      P.function (callee.handle names.home) = some (params.map (·.2), result)

section Forms

variable {names : Names} {os : List Operand} (hP : P.Knows names)

include hP in
/-- A name is the slot of the variable that it means, which was assigned, or a global. -/
theorem Interface.Knows.name (symbol : String) (s : Span) :
    Types P names.home quiet (Lowering.name names symbol s) := by
  refine Makes.get (S := fun ls slots A p B => B = A ∧
    ((∃ l, ls.find? symbol = some l ∧ p = (.getLocal l.slot, l.type)) ∨
      HasType P names.home slots A p.1 p.2 A)) (fun ls => ?_) ?_
  · rcases hls : ls.find? symbol with _ | l
    · dsimp only
      rcases hown : names.ownGlobal? symbol with _ | ⟨i, t⟩
      · dsimp only
        rcases hforeign : names.foreignGlobal? symbol with _ | ⟨other, i, t⟩
        · exact .fail _ _
        · exact .pure fun slots A => ⟨rfl, .inr (.foreignGlobal (hP.foreignGlobal hforeign))⟩
      · exact .pure fun slots A => ⟨rfl, .inr (.getGlobal (hP.ownGlobal hown))⟩
    · exact .pure fun slots A => ⟨rfl, .inl ⟨l, rfl, rfl⟩⟩
  · rintro ls T slots A p _ hls hle ⟨rfl, ⟨l, hl, rfl⟩ | hp⟩
    · obtain ⟨htype, hassigned⟩ := hls.find? hl
      obtain ⟨rest, rfl⟩ := hle
      refine .getLocal ?_ hassigned
      rwa [List.getElem?_append_left (List.getElem?_eq_some_iff.1 htype).1]
    · exact hp

include hP in
theorem Interface.Knows.ofAtom (a : Atom) (s : Span) :
    Types P names.home quiet (Lowering.ofAtom names a s) := by
  cases a with
  | int n => exact .pure fun slots A => .const trivial
  | bool b => exact .pure fun slots A => .const trivial
  | str text => exact .pure fun slots A => .const trivial
  | sym symbol => exact hP.name symbol s

/-- A `let` gives the next slot to a new variable, and assigns it. -/
theorem AllTypes.bind (h : AllTypes P home quiet os) (s : Span) :
    Types P home False (Lowering.bind os s) := by
  unfold Lowering.bind
  split
  · rename_i target _ valueTree value
    refine Makes.lift fun symbol _ => ?_
    intro ls p ls' T A hrun hls
    change (value ls >>= fun r => Except.ok ((Code.setLocal r.2.slots r.1.1, Ty.unit),
      r.2.declare symbol r.1.2)) = .ok (p, ls') at hrun
    obtain ⟨⟨⟨code, type⟩, ls₁⟩, hvalue, hrun⟩ := ok_of_bind hrun
    cases hrun
    obtain ⟨T', B, hT, hA, hls₁, htail, -, hcode⟩ :=
      h (valueTree, value) (List.mem_cons_of_mem _ List.mem_cons_self) _ _ _ _ _ hvalue hls
    refine ⟨T' ++ [type], insert ls₁.slots B, hT.trans (List.prefix_append _ _),
      hA.trans (Set.subset_insert _ _), hls₁.declare symbol type, ?_, False.elim,
      fun slots hle => ?_⟩
    · rw [← htail]
      exact Locals.tail_declare ls₁ symbol type
    · refine .setLocal (t := type) ?_ (hcode slots ((List.prefix_append _ _).trans hle))
        (isAssignable_self type)
      obtain ⟨rest, rfl⟩ := hle
      rw [hls₁.slots, List.append_assoc, List.getElem?_append_right (Nat.le_refl _), Nat.sub_self]
      rfl
  · exact .fail _ _

include hP in
/-- A `set` goes to a variable, whose slot it assigns, or to a global of the unit. -/
theorem Interface.Knows.assign (h : AllTypes P names.home quiet os) (s : Span) :
    Types P names.home quiet (Lowering.assign names os s) := by
  unfold Lowering.assign
  split
  · rename_i target x value
    have hvalue := h value (List.mem_cons_of_mem _ List.mem_cons_self)
    rcases hsymbol : target.symbol? with _ | symbol
    · exact .fail _ _
    refine Makes.get (S := fun ls slots A p B => p.2 = .unit ∧ ∃ code t u,
      HasType P names.home slots A code u B ∧ isAssignable t u = true ∧
        ((∃ l, ls.find? symbol = some l ∧ p.1 = .setLocal l.slot code ∧ t = l.type) ∨
          ∃ i, P.global names.home i = some t ∧ p.1 = .setGlobal i code)) (fun ls => ?_) ?_
    · rcases hls : ls.find? symbol with _ | l
      · dsimp only
        rcases hown : names.ownGlobal? symbol with _ | ⟨i, t⟩
        · dsimp only
          split
          · exact .fail _ _
          · exact .fail _ _
        · refine (hvalue.expect t).map fun code => .pure fun slots A B ⟨u, hc, hassign⟩ => ?_
          exact ⟨rfl, code, t, u, hc, hassign, .inr ⟨i, hP.ownGlobal hown, rfl⟩⟩
      · refine (hvalue.expect l.type).map fun code => .pure fun slots A B ⟨u, hc, hassign⟩ => ?_
        exact ⟨rfl, code, l.type, u, hc, hassign, .inl ⟨l, rfl, rfl, rfl⟩⟩
    · rintro ls T slots A ⟨code, t⟩ B hls hle
        ⟨ht, c, t, u, hc, hassign, ⟨l, hl, hcode, rfl⟩ | ⟨i, hi, hcode⟩⟩
      · obtain ⟨htype, hassigned⟩ := hls.find? hl
        obtain ⟨rest, rfl⟩ := hle
        dsimp only at ht hcode
        subst ht hcode
        rw [← Set.insert_eq_of_mem (hc.subset hassigned)]
        refine .setLocal ?_ hc hassign
        rwa [List.getElem?_append_left (List.getElem?_eq_some_iff.1 htype).1]
      · dsimp only at ht hcode
        subst ht hcode
        exact .setGlobal hi hc hassign
  · exact .fail _ _

/-! ## Control -/

/-- The branches of an `if` have scopes of their own; what they assign counts for nothing behind
it. -/
theorem AllTypes.branch (hmixed : P.laxity.mixed) (h : AllTypes P home False os)
    (hcond : AllTypes P home quiet (os.take 1)) (s : Span) :
    Types P home quiet (Lowering.branch os s) := by
  have hscope : ∀ o ∈ os, Makes P quiet
      (fun slots A p B => B = A ∧ ∃ D, HasType P home slots A p.1 p.2 D) (Lowering.inScope o.2) :=
    fun o ho => ((Makes.inScope (h o ho)).forget (.inl trivial)).quieter fun _ => trivial
  unfold Lowering.branch
  split
  · rename_i cond onTrue
    refine Makes.bind (hcond cond List.mem_cons_self).expectBool (S := fun c slots B p D => D = B ∧
      p.2 = .unit ∧ ∃ yes t E, p.1 = .branch c yes none ∧ HasType P home slots B yes t E)
      (fun test => (hscope onTrue (by simp)).map fun ⟨yes, t⟩ => ?_) ?_
    · exact .pure fun slots A B ⟨hB, D, hyes⟩ => ⟨hB, rfl, yes, t, D, rfl, hyes⟩
    · rintro slots A c B ⟨_, _⟩ D hc ⟨rfl, rfl, yes, t, E, rfl, hyes⟩
      exact .when hc hyes (.mixed hmixed)
  · rename_i cond onTrue onFalse
    refine Makes.bind (hcond cond List.mem_cons_self).expectBool (S := fun c slots B p D => D = B ∧
      ∃ yes no t u E K, p.1 = .branch c yes (some no) ∧ HasType P home slots B yes t E ∧
        HasType P home slots B no u K ∧ Joins P.laxity t u p.2) (fun test => ?_) ?_
    · refine Makes.bind (hscope onTrue (by simp)) (S := fun q slots B p D => D = B ∧
        ∃ no u K, p.1 = .branch test q.1 (some no) ∧ HasType P home slots B no u K ∧
          Joins P.laxity q.2 u p.2)
        (fun ⟨yes, left⟩ => (hscope onFalse (by simp)).map fun ⟨no, right⟩ => ?_) ?_
      · refine .pure fun slots A B ⟨hB, D, hno⟩ => ⟨hB, no, right, D, rfl, hno, ?_⟩
        dsimp only
        split
        · rename_i htypes
          rcases Bool.or_eq_true_iff.1 htypes with heq | hint
          · rw [of_decide_eq_true heq]
            exact .same
          · obtain ⟨hleft, hright⟩ := Bool.and_eq_true_iff.1 hint
            exact .integers hleft hright
        · exact .mixed hmixed
      · rintro slots A ⟨yes, t⟩ B p D ⟨rfl, E, hyes⟩ ⟨rfl, no, u, K, hp, hno, hjoins⟩
        exact ⟨rfl, yes, no, t, u, E, K, hp, hyes, hno, hjoins⟩
    · rintro slots A c B ⟨_, v⟩ D hc ⟨rfl, yes, no, t, u, E, K, rfl, hyes, hno, hjoins⟩
      exact .branch hc hyes hno hjoins
  · exact .fail _ _

theorem AllTypes.loop (h : AllTypes P home False os) (hcond : AllTypes P home quiet (os.take 1))
    (s : Span) : Types P home quiet (Lowering.loop os s) := by
  unfold Lowering.loop
  split
  · rename_i cond body
    have hbody : Makes P quiet (fun slots A p B => B = A ∧ ∃ D, HasType P home slots A p.1 p.2 D)
        (Lowering.sequence body) := (h.tail.sequence.forget (.inl trivial)).quieter fun _ => trivial
    refine Makes.bind (hcond cond List.mem_cons_self).expectBool (S := fun c slots B p D => D = B ∧
      p.2 = .unit ∧ ∃ code t E, p.1 = .loop c code ∧ HasType P home slots B code t E)
      (fun test => hbody.map fun ⟨code, t⟩ => ?_) ?_
    · exact .pure fun slots A B ⟨hB, D, hcode⟩ => ⟨hB, rfl, code, t, D, rfl, hcode⟩
    · rintro slots A c B ⟨_, _⟩ D hc ⟨rfl, rfl, code, t, E, rfl, hcode⟩
      exact .loop hc hcode
  · exact .fail _ _

/-- **Operands that may never run assign nothing** that counts behind the form. -/
theorem AllTypes.chain {word : String} {join : Code → Code → Code}
    (hjoin : ∀ {slots A B D c d}, HasType P home slots A c .bool B →
      HasType P home slots B d .bool D → HasType P home slots A (join c d) .bool B)
    (h : AllTypes P home quiet os)
    (hlater : P.laxity.unset ∨ AllTypes P home True os.tail) (s : Span) :
    Types P home quiet (Lowering.chain word join os s) := by
  have hoperand : ∀ o ∈ os.tail, Makes P quiet
      (fun slots A c B => B = A ∧ ∃ D, HasType P home slots A c .bool D)
      (Lowering.expect o .bool) := by
    intro o ho
    rcases hlater with hunset | hquiet
    · exact (h o (List.mem_of_mem_tail ho)).expectBool.forget (.inr hunset)
    · exact ((hquiet o ho).expectBool.forget (.inl trivial)).quieter fun _ => trivial
  -- joining more operands keeps the type, and what was assigned before them
  have hfold : ∀ {later : List Operand}, later ⊆ os.tail → ∀ code,
      Makes P quiet (fun slots B c D => D = B ∧ ∀ A, HasType P home slots A code .bool B →
        HasType P home slots A c .bool B)
        (later.foldlM (fun code o => return join code (← Lowering.expect o .bool)) code) := by
    intro later
    induction later with
    | nil => exact fun _ code => .pure fun slots B => ⟨rfl, fun A hc => hc⟩
    | cons o later ih =>
      intro hsub code
      obtain ⟨ho, hsub⟩ := List.cons_subset.1 hsub
      rw [List.foldlM_cons]
      refine Makes.bind ((hoperand o ho).map (R := fun slots B c D => D = B ∧
        ∀ A, HasType P home slots A code .bool B → HasType P home slots A c .bool B) fun d => ?_)
        (ih hsub) ?_
      · exact .pure fun slots A B ⟨hB, D, hd⟩ => ⟨hB, fun A' hc => hjoin hc hd⟩
      · rintro slots A c B d D ⟨rfl, hc⟩ ⟨rfl, hd⟩
        exact ⟨rfl, fun A' hcode => hd A' (hc A' hcode)⟩
  unfold Lowering.chain
  split
  · rename_i first second rest
    refine Makes.bind (h first List.mem_cons_self).expectBool (S := fun code slots B p D => D = B ∧
      p.2 = .bool ∧ ∀ A, HasType P home slots A code .bool B → HasType P home slots A p.1 .bool B)
      (fun code => (hfold (List.Subset.refl _) code).map fun c => ?_) ?_
    · exact .pure fun slots A B ⟨hB, hc⟩ => ⟨hB, rfl, hB ▸ hc⟩
    · rintro slots A code B ⟨c, _⟩ D hcode ⟨rfl, rfl, hc⟩
      exact hc A hcode
  · exact .fail _ _

/-! ## Types and fields -/

include hP in
/-- A field that a struct type has by its name has a place among the fields of the struct. -/
theorem Interface.Knows.fieldOf (ref : StructRef) (field : Tree) :
    Returns (fun p => ∃ l, P.layouts.find? ref = some l ∧ l.fields[p.1]? = some p.2)
      (Lowering.fieldOf names ref field) := by
  unfold Lowering.fieldOf
  rcases field.symbol? with _ | wanted
  · exact .fail _ _
  · dsimp only
    split
    · rename_i i f hi hf
      rcases hl : names.layouts.find? ref with _ | l
      · rw [hl] at hf
        cases hf
      · rw [hl, Option.getD_some] at hi hf
        refine .pure ⟨l, hP.layouts ref l hl, ?_⟩
        rwa [Layout.field?, List.find?_eq_bind_findIdx?_getElem?,
          show l.fields.findIdx? _ = _ from hi] at hf
    · exact .fail _ _

theorem types_sizeOf (s : Span) : Types P home quiet (Lowering.sizeOf names os s) := by
  unfold Lowering.sizeOf
  split
  · exact Makes.lift fun type _ => .pure fun slots A => .const trivial
  · exact .fail _ _

include hP in
/-- Every type that can be spelled has zeros. -/
theorem Interface.Knows.zeroed (s : Span) :
    Types P names.home quiet (Lowering.zeroed names os s) := by
  unfold Lowering.zeroed
  split
  · refine Makes.lift fun type htype => .pure fun slots A => .const ?_
    have hzeros := Value.conforms_zeroedWithin (hP.grounded htype)
    exact (hzeros.standsFor.mono hP.layouts).conforms
  · exact .fail _ _

include hP in
theorem Interface.Knows.fieldPointer (h : AllTypes P names.home quiet os) (s : Span) :
    Types P names.home quiet (Lowering.fieldPointer names os s) := by
  unfold Lowering.fieldPointer
  split
  · refine Makes.map (h _ List.mem_cons_self).expectPointer fun ⟨code, target⟩ => ?_
    dsimp only
    split
    · refine (hP.fieldOf _ _).bind fun ⟨i, f⟩ _ => ?_
      exact .pure fun slots A B hc => .fieldPtr hc
    · exact .fail _ _
  · exact .fail _ _

include hP in
theorem Interface.Knows.fieldValue (h : AllTypes P names.home quiet os) (s : Span) :
    Types P names.home quiet (Lowering.fieldValue names os s) := by
  unfold Lowering.fieldValue
  split
  · refine Makes.map (h _ List.mem_cons_self) fun ⟨code, type⟩ => ?_
    dsimp only
    split
    · refine (hP.fieldOf _ _).bind fun ⟨i, f⟩ ⟨l, hl, hf⟩ => ?_
      exact .pure fun slots A B hc => .fieldGet hc hl hf
    · exact .fail _ _
  · exact .fail _ _

include hP in
/-- A struct is made of as many values as it has fields, each of the type of its field. -/
theorem Interface.Knows.make (h : AllTypes P names.home quiet os) (s : Span) :
    Types P names.home quiet (Lowering.make names os s) := by
  unfold Lowering.make
  split
  · refine Makes.lift fun type htype => ?_
    split
    · rename_i ref
      obtain ⟨l, hl⟩ : ∃ l, names.layouts.find? ref = some l := (hP.grounded htype).struct
      dsimp only
      split
      · exact .fail _ _
      · rename_i hlen
        rw [hl] at hlen ⊢
        refine (h.tail.expectAll ?_).map fun codes => ?_
        · rw [List.length_map]
          exact not_not.1 hlen
        · exact .pure fun slots A B ⟨us, hcs, hassign⟩ => .make (hP.layouts ref l hl) hcs hassign
    · exact .fail _ _
  · exact .fail _ _

theorem AllTypes.cast (h : AllTypes P home quiet os) (s : Span) :
    Types P home quiet (Lowering.cast names os s) := by
  unfold Lowering.cast
  split
  · refine Makes.lift fun wanted _ => ?_
    refine Makes.map (h _ (List.mem_cons_of_mem _ List.mem_cons_self)) fun ⟨code, found⟩ => ?_
    dsimp only
    split
    · rename_i hcast
      exact .pure fun slots A B hc => .cast hc hcast
    · exact .fail _ _
  · exact .fail _ _

/-! ## Memory -/

theorem AllTypes.offset (h : AllTypes P home quiet os) (s : Span) :
    Types P home quiet (Lowering.offset names os s) := by
  unfold Lowering.offset
  split
  · refine Makes.bind (h _ List.mem_cons_self).expectPointer
      (S := fun p slots B q D => q.2 = .ptr p.2 ∧
      ∃ count t, q.1 = .offset p.1 count (p.2.size names.layouts) ∧
        HasType P home slots B count t D)
      (fun ⟨code, target⟩ => (h _ (List.mem_cons_of_mem _ List.mem_cons_self)).expectInteger.map
        fun ⟨n, t⟩ => ?_) ?_
    · exact .pure fun slots A B ⟨hn, _⟩ => ⟨rfl, n, t, rfl, hn⟩
    · rintro slots A ⟨code, target⟩ B ⟨_, _⟩ D hc ⟨rfl, n, t, rfl, hn⟩
      exact .offset hc hn
  · exact .fail _ _

theorem AllTypes.load (h : AllTypes P home quiet os) (s : Span) :
    Types P home quiet (Lowering.load os s) := by
  unfold Lowering.load
  split
  · refine Makes.map (h _ List.mem_cons_self).expectPlace fun ⟨code, type⟩ => ?_
    exact .pure fun slots A B hc => .load hc
  · exact .fail _ _

theorem AllTypes.store (h : AllTypes P home quiet os) (s : Span) :
    Types P home quiet (Lowering.store os s) := by
  unfold Lowering.store
  split
  · refine Makes.bind (h _ List.mem_cons_self).expectPlace (S := fun p slots B q D => q.2 = .unit ∧
      ∃ value t, q.1 = .store p.1 value p.2 ∧ HasType P home slots B value t D)
      (fun ⟨code, type⟩ => ((h _ (List.mem_cons_of_mem _ List.mem_cons_self)).expect type).map
        fun value => ?_) ?_
    · exact .pure fun slots A B ⟨t, hvalue, _⟩ => ⟨rfl, value, t, rfl, hvalue⟩
    · rintro slots A ⟨code, target⟩ B ⟨_, _⟩ D hc ⟨rfl, value, t, rfl, hvalue⟩
      exact .store hc hvalue
  · exact .fail _ _

theorem AllTypes.address (h : AllTypes P home quiet os) (s : Span) :
    Types P home quiet (Lowering.address os s) := by
  unfold Lowering.address
  split
  · refine Makes.map (h _ List.mem_cons_self).expectPointer fun ⟨code, target⟩ => ?_
    exact .pure fun slots A B hc => .addr hc
  · exact .fail _ _

theorem AllTypes.sequenceOf (h : AllTypes P home quiet os) (s : Span) :
    Types P home quiet (Lowering.sequenceOf names os s) := by
  unfold Lowering.sequenceOf
  split
  · refine Makes.lift fun elem _ => ?_
    split
    · refine (h.tail.expectAll (List.length_map _)).map fun codes => ?_
      exact .pure fun slots A B ⟨us, hcs, _⟩ => .seqLit hcs
    · exact .fail _ _
  · exact .fail _ _

theorem AllTypes.length (h : AllTypes P home quiet os) (s : Span) :
    Types P home quiet (Lowering.length os s) := by
  unfold Lowering.length
  split
  · refine Makes.map (h _ List.mem_cons_self) fun ⟨code, found⟩ => ?_
    dsimp only
    split
    · exact .pure fun slots A B hc => .seqLen hc
    · exact .fail _ _
  · exact .fail _ _

theorem AllTypes.copySequence (h : AllTypes P home quiet os) (s : Span) :
    Types P home quiet (Lowering.copySequence os s) := by
  unfold Lowering.copySequence
  split
  · refine Makes.bind (h _ List.mem_cons_self).expectPointer
      (S := fun p slots B q D => q.2 = .unit ∧
      ∃ seq t, q.1 = .seqCopy p.1 seq ∧ HasType P home slots B seq t D)
      (fun ⟨place, target⟩ => Makes.map (h _ (List.mem_cons_of_mem _ List.mem_cons_self))
        fun ⟨code, found⟩ => ?_) ?_
    · dsimp only
      split
      · exact .pure fun slots A B hc => ⟨rfl, code, found, rfl, hc⟩
      · exact .fail _ _
    · rintro slots A ⟨place, target⟩ B ⟨_, _⟩ D hc ⟨rfl, code, t, rfl, hcode⟩
      exact .seqCopy hc hcode
  · exact .fail _ _

/-! ## Operators and calls -/

theorem AllTypes.negation (h : AllTypes P home quiet os) (s : Span) :
    Types P home quiet (Lowering.negation os s) := by
  unfold Lowering.negation
  split
  · refine Makes.map (h _ List.mem_cons_self).expectBool fun code => ?_
    exact .pure fun slots A B hc => .not hc
  · exact .fail _ _

theorem AllTypes.binary (h : AllTypes P home quiet os) (op : BinaryOp) (s : Span) :
    Types P home quiet (Lowering.binary op os s) := by
  unfold Lowering.binary
  split
  · refine Makes.bind (h _ List.mem_cons_self) (S := fun p slots B q D => ∃ code t,
      q.1 = .binary op p.1 code ∧ HasType P home slots B code t D ∧ op.Gives q.2)
      (fun ⟨a, leftType⟩ => Makes.map (h _ (List.mem_cons_of_mem _ List.mem_cons_self))
        fun ⟨b, rightType⟩ => ?_) ?_
    · dsimp only
      split
      · rename_i hequality
        have hbool : op.Gives .bool := by cases op <;> first | rfl | cases hequality
        split
        · exact .pure fun slots A B hc => ⟨b, rightType, rfl, hc, hbool⟩
        · exact .fail _ _
      · split
        · exact .fail _ _
        · split
          · exact .fail _ _
          · rename_i hleft _
            refine .pure fun slots A B hc => ⟨b, rightType, rfl, hc, ?_⟩
            have hint : leftType.isInteger = true := by simpa using hleft
            cases op <;> first | exact hint | rfl
    · rintro slots A ⟨a, leftType⟩ B ⟨_, t⟩ D ha ⟨b, rightType, rfl, hb, ht⟩
      exact .binary ha hb ht
  · split
    · refine Makes.map (h _ List.mem_cons_self).expectInteger fun ⟨code, type⟩ => ?_
      exact .pure fun slots A B ⟨hc, hint⟩ => .binary (.const (t := .i64) trivial) hc hint
    · exact .fail _ _
  · exact .fail _ _

include hP in
/-- A call passes as many arguments as the function has parameters, each of its parameter's type. -/
theorem Interface.Knows.call (h : AllTypes P names.home quiet os) (function : String) (head : Tree)
    (s : Span) : Types P names.home quiet (Lowering.call names function head os s) := by
  unfold Lowering.call
  rcases hfound : names.function? function with _ | ⟨callee, params, result⟩
  · exact .fail _ _
  · dsimp only
    split
    · exact .fail _ _
    · rename_i hlen
      refine (h.arguments function (not_not.1 hlen)).map fun codes => ?_
      exact .pure fun slots A B ⟨us, hcs, hassign⟩ => .call (hP.function hfound) hcs hassign

/-! ## All forms, and trees -/

/-- No operator is the word of a form. -/
theorem Form.ofWord?_of_operator {word : String} {op : BinaryOp}
    (h : BinaryOp.ofSymbol? word = some op) : Form.ofWord? word = none := by
  have hall : ∀ p ∈ BinaryOp.symbols, Form.ofWord? p.1 = none := by decide
  obtain ⟨before, after, hsymbols, -⟩ := List.lookup_eq_some_iff.1 h
  exact hall (word, op) (by rw [hsymbols]; simp)

theorem any_declares {ts : List Tree} (h : (ts.map Tree.declares).any id = false) :
    ∀ t ∈ ts, t.declares = false := by
  simpa using h

/-- Operands that are quiet where they declare nothing. -/
theorem allTypes_of_declares {ts : List Tree}
    (h : ∀ t ∈ ts, Types P home (t.declares = false) (Lowering.ofTree names t))
    (hquiet : quiet → ∀ t ∈ ts, t.declares = false) :
    AllTypes P home quiet (ts.map (Lowering.operand names)) := by
  intro o ho
  obtain ⟨t, ht, rfl⟩ := List.mem_map.1 ho
  exact (h t ht).quieter fun hq => hquiet hq t ht

include hP in
/-- **Every form gives typed code** where its operands do. -/
theorem Interface.Knows.form (f : Form) {ts : List Tree}
    (h : ∀ t ∈ ts, Types P names.home (t.declares = false) (Lowering.ofTree names t))
    (hlater : f = .all ∨ f = .any → P.laxity.unset ∨ ∀ t ∈ ts.tail, t.declares = false) (s : Span) :
    Types P names.home (f.declares (ts.map Tree.declares) = false)
      (Lowering.form names f (ts.map (Lowering.operand names)) s) := by
  have hall : AllTypes P names.home ((ts.map Tree.declares).any id = false)
      (ts.map (Lowering.operand names)) := allTypes_of_declares h any_declares
  have hloose : AllTypes P names.home False (ts.map (Lowering.operand names)) :=
    allTypes_of_declares h False.elim
  have hfirst : AllTypes P names.home (((ts.map Tree.declares).take 1).any id = false)
      ((ts.map (Lowering.operand names)).take 1) := by
    rw [← List.map_take, ← List.map_take]
    exact allTypes_of_declares (fun t ht => h t (List.mem_of_mem_take ht)) any_declares
  have hchain : f = .all ∨ f = .any → P.laxity.unset ∨
      AllTypes P names.home True (ts.map (Lowering.operand names)).tail := fun hf => by
    refine (hlater hf).imp_right fun hquiet => ?_
    rw [← List.map_tail]
    exact allTypes_of_declares (fun t ht => h t (List.mem_of_mem_tail ht)) fun _ => hquiet
  cases f with
  | bind => exact (hloose.bind s).quieter fun hq => by cases hq
  | sequence => exact hloose.sequence.quieter fun _ => trivial
  | assign => exact hP.assign hall s
  | branch => exact hloose.branch hP.mixed hfirst s
  | loop => exact hloose.loop hfirst s
  | all => exact hall.chain .and (hchain (.inl rfl)) s
  | any => exact hall.chain .or (hchain (.inr rfl)) s
  | negation => exact hall.negation s
  | sizeOf => exact types_sizeOf s
  | zeroed => exact hP.zeroed s
  | fieldPointer => exact hP.fieldPointer hall s
  | fieldValue => exact hP.fieldValue hall s
  | make => exact hP.make hall s
  | load => exact hall.load s
  | store => exact hall.store s
  | cast => exact hall.cast s
  | offset => exact hall.offset s
  | address => exact hall.address s
  | sequenceOf => exact hall.sequenceOf s
  | length => exact hall.length s
  | copySequence => exact hall.copySequence s

include hP in
/-- **What lowers a tree gives code of the type that it says**, if it is not refused. -/
theorem Interface.Knows.types (t : Tree) : P.laxity.unset ∨ t.careful = true →
    Types P names.home (t.declares = false) (Lowering.ofTree names t) := by
  induction t using Tree.inductItems with
  | leaf a s => exact fun _ => hP.ofAtom a s
  | node items s ih =>
    intro hcareful
    rw [Lowering.ofTree, Tree.fold, Tree.foldAll_eq_map]
    rcases items with _ | ⟨head, args⟩
    · exact .pure fun slots A => .const trivial
    have hargs : ∀ t ∈ args, Types P names.home (t.declares = false) (Lowering.ofTree names t) :=
      fun t ht => ih t (List.mem_cons_of_mem _ ht)
        (hcareful.imp_right fun h => Tree.careful_of_mem h (List.mem_cons_of_mem _ ht))
    rw [Tree.declares_node]
    change Types P names.home _ (Lowering.ofItems names
      (Lowering.operand names head :: args.map (Lowering.operand names)) s)
    unfold Lowering.ofItems Lowering.operand
    dsimp only
    rcases hsymbol : head.symbol? with _ | word
    · exact .fail _ _
    dsimp only [Option.bind_some]
    have hall : AllTypes P names.home ((args.map Tree.declares).any id = false)
        (args.map (Lowering.operand names)) := allTypes_of_declares hargs any_declares
    rcases hop : BinaryOp.ofSymbol? word with _ | op
    · rcases hform : Form.ofWord? word with _ | f
      · exact hP.call hall word head s
      · refine hP.form f hargs (fun hf => hcareful.imp_right fun h => ?_) s
        exact Tree.declares_of_careful h (by rw [hsymbol]; exact hform) hf
    · rw [Form.ofWord?_of_operator hop]
      exact hall.binary op s

end Forms

end Kiln
