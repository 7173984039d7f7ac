import Kiln.Proofs.Lowering.Inversion
import Kiln.Proofs.Source.Code
/-!
# Lowering an expression keeps its meaning

`Lowers` says that what lowers an expression, if it does not refuse it, gives code of the
expression's type that does what the expression means, and declares what the expression
declares. Each form of the language keeps this: where it holds of the operands it holds of
the form (`Sees.form`, `Sees.binary`, `Sees.call`, `Sees.ofAtom`), and so it holds of all
trees (`Sees.ofTree`).
-/

namespace Kiln

namespace Source

variable {α β : Type} {names : Names} {D : Scenery} {Γ : Layouts} {lib : Library} {calls : Calls}
  {limit : Nat}

/-- What lowering knows of a unit's names is what the unit defines and sees, and calls are
known to do what they mean at every depth below the limit. -/
structure Sees (names : Names) (D : Scenery) (Γ : Layouts) (lib : Library) (calls : Calls)
    (limit : Nat) :
    Prop where
  layouts : names.layouts = Γ
  type : ∀ {tree : Tree} {t : Ty}, names.resolveType tree = .ok t → D.typeOf tree = t
  ownGlobal : ∀ name, D.ownGlobal? name = names.ownGlobal? name
  global_own : ∀ {name : String} {i : Nat} {t : Ty}, names.ownGlobal? name = some (i, t) →
    D.global? name = some (D.home, i, t)
  global_foreign : ∀ {name : String}, names.ownGlobal? name = none →
    D.global? name = names.foreignGlobal? name
  function : ∀ {name : String} {callee : Kiln.Callee} {params : List Param} {result : Ty},
    names.function? name = some (callee, params, result) →
      ∃ f, D.function? name = some (f, result) ∧ ∀ depth < limit, ∀ vs,
        Run.Follows Eq
          (invoke lib (eval lib depth)
            (match callee with
              | .own index => ⟨D.home, index⟩
              | .foreign other index => ⟨other, index⟩) vs)
          (calls f vs)

/-- What lowers an expression declares some of the variables of `L`, and gives code that
does what the expression means. -/
def Lowers (lib : Library) (home : ModuleId) (limit : Nat) (L : List Variable) (x : Lowering)
    (e : Expr) : Prop :=
  Builds L e.after (fun sc O p => p.2 = e.type sc ∧ Compiles lib home limit O p.1 (e.run sc)) x

/-- The same of the operands of a list. -/
inductive LowersAll (lib : Library) (home : ModuleId) (limit : Nat) :
    List Variable → List Kiln.Operand → List Operand → Prop
  | nil : LowersAll lib home limit [] [] []
  | cons {L M : List Variable} {t : Tree} {x : Lowering} {e : Expr} {os : List Kiln.Operand}
      {es : List Operand} :
      Lowers lib home limit L x e → LowersAll lib home limit M os es →
      LowersAll lib home limit (L ++ M) ((t, x) :: os) ((t, e) :: es)

variable {home : ModuleId} {L M : List Variable} {x y : Lowering} {d e : Expr} {t u : Tree}
  {os : List Kiln.Operand} {es : List Operand}

/-- A list of one operand. -/
theorem LowersAll.one {o : Kiln.Operand} (h : LowersAll lib home limit L [o] es) :
    ∃ e, es = [(o.1, e)] ∧ Lowers lib home limit L o.2 e := by
  cases h with
  | cons hx hxs =>
    cases hxs
    exact ⟨_, rfl, by rwa [List.append_nil]⟩

/-- A list of two operands. -/
theorem LowersAll.two {o p : Kiln.Operand} (h : LowersAll lib home limit L [o, p] es) :
    ∃ M N d e, L = M ++ N ∧ es = [(o.1, d), (p.1, e)] ∧ Lowers lib home limit M o.2 d ∧
      Lowers lib home limit N p.2 e := by
  cases h with
  | cons hx hxs =>
    obtain ⟨e, rfl, hy⟩ := hxs.one
    exact ⟨_, _, _, e, rfl, rfl, hx, hy⟩

/-! ## Operands that have to be of some kind -/

/-- A step behind something that may be refused. -/
theorem Builds.lift_bind {Q : Scopes → List Variable → β → Prop} {after : Scopes → Scopes}
    {r : Except LoweringError α} {k : α → LowerM β} (h : ∀ a, r = .ok a → Builds L after Q (k a)) :
    Builds L after Q (liftM r >>= k) := by
  rcases r with e | a
  · intro ls b ls' owners sc hx
    cases hx
  · exact h a rfl

namespace Lowers

variable (h : Lowers lib home limit L x e)

include h

theorem expect (t : Tree) (expected : Ty) :
    Builds L e.after (fun sc O code => Compiles lib home limit O code (e.run sc))
      (Lowering.expect (t, x) expected) := by
  refine Builds.map h fun ⟨code, found⟩ => ?_
  dsimp only
  split
  · exact .pure fun _ _ sc O hc => hc.2
  · exact .fail _ _

theorem expectInteger (t : Tree) :
    Builds L e.after (fun sc O p => p.2 = e.type sc ∧ Compiles lib home limit O p.1 (e.run sc))
      (Lowering.expectInteger (t, x)) := by
  refine Builds.map h fun ⟨code, found⟩ => ?_
  dsimp only
  split
  · exact .pure fun _ _ sc O hc => hc
  · exact .fail _ _

theorem expectPointer (t : Tree) :
    Builds L e.after (fun sc O p => e.type sc = .ptr p.2 ∧ Compiles lib home limit O p.1 (e.run sc))
      (Lowering.expectPointer (t, x)) := by
  refine Builds.map h fun ⟨code, found⟩ => ?_
  dsimp only
  split
  · exact .pure fun _ _ sc O hc => ⟨hc.1.symm, hc.2⟩
  · exact .fail _ _

theorem expectPlace (t : Tree) :
    Builds L e.after (fun sc O p => e.type sc = .ptr p.2 ∧ Compiles lib home limit O p.1 (e.run sc))
      (Lowering.expectPlace (t, x)) := by
  refine Builds.map (h.expectPointer t) fun ⟨code, target⟩ => ?_
  dsimp only
  split
  · exact .pure fun _ _ sc O hc => hc
  · exact .fail _ _

end Lowers

/-! ## Operands that follow each other -/

/-- The expressions of operands. -/
abbrev exprs (es : List Operand) : List Expr := es.map (·.2)

theorem LowersAll.items : ∀ {L : List Variable} {os : List Kiln.Operand} {es : List Operand},
    LowersAll lib home limit L os es → ∀ last,
      Builds L (Expr.afterAll (exprs es))
        (fun sc O p => p.2 = Expr.lastType last (exprs es) sc ∧
          CompilesAll lib home limit O p.1 (exprs es) sc)
        (Lowering.items last os)
  | _, _, _, .nil, last => .pure fun _ _ => ⟨rfl, .nil⟩
  | _, _, _, @LowersAll.cons _ _ _ _ _ _ _ _ _ es hx hxs, last => by
    refine Builds.bind hx (P := fun p sc O q => q.2 = Expr.lastType p.2 (exprs es) sc ∧
      ∃ cs, q.1 = p.1 :: cs ∧ CompilesAll lib home limit O cs (exprs es) sc)
      (fun ⟨code, type⟩ => (hxs.items type).map fun ⟨codes, t⟩ => ?_) (fun _ => rfl) ?_
    · exact .pure fun _ _ sc O hc => ⟨hc.1, codes, rfl, hc.2⟩
    · rintro sc O ⟨code, type⟩ ⟨_, t⟩ ⟨htype, hc⟩ ⟨ht, codes, rfl, hcs⟩
      dsimp only at htype ht
      subst htype
      exact ⟨ht, .cons hc hcs⟩

theorem LowersAll.expectAll : ∀ {L : List Variable} {os : List Kiln.Operand} {es : List Operand},
    LowersAll lib home limit L os es → ∀ {ts : List Ty}, ts.length = os.length →
      Builds L (Expr.afterAll (exprs es))
        (fun sc O cs => CompilesAll lib home limit O cs (exprs es) sc) (Lowering.expectAll os ts)
  | _, _, _, .nil, [], _ => .pure fun _ _ => .nil
  | _, _, _, @LowersAll.cons _ _ _ _ _ _ _ _ _ es hx hxs, t :: ts, hlen => by
    refine Builds.bind (hx.expect _ t) (P := fun code sc O cs =>
      ∃ rest, cs = code :: rest ∧ CompilesAll lib home limit O rest (exprs es) sc)
      (fun code => (hxs.expectAll (Nat.succ.inj hlen)).map fun codes => ?_) (fun _ => rfl) ?_
    · exact .pure fun _ _ sc O hc => ⟨codes, rfl, hc⟩
    · rintro sc O code _ hc ⟨codes, rfl, hcs⟩
      exact .cons hc hcs

theorem LowersAll.arguments (function : String) :
    ∀ {L : List Variable} {os : List Kiln.Operand} {es : List Operand},
      LowersAll lib home limit L os es → ∀ {params : List Param}, params.length = os.length →
        Builds L (Expr.afterAll (exprs es))
          (fun sc O cs => CompilesAll lib home limit O cs (exprs es) sc)
          (Lowering.arguments function params os)
  | _, _, _, .nil, [], _ => .pure fun _ _ => .nil
  | _, _, _, @LowersAll.cons _ _ _ _ _ _ _ _ _ es hx hxs, p :: params, hlen => by
    refine Builds.bind hx (P := fun p sc O cs =>
      ∃ rest, cs = p.1 :: rest ∧ CompilesAll lib home limit O rest (exprs es) sc)
      (fun ⟨code, found⟩ => ?_) (fun _ => rfl) ?_
    · dsimp only
      split
      · exact (hxs.arguments function (Nat.succ.inj hlen)).map fun codes =>
          .pure fun _ _ sc O hc => ⟨codes, rfl, hc⟩
      · exact .fail _ _
    · rintro sc O ⟨code, found⟩ _ ⟨-, hc⟩ ⟨codes, rfl, hcs⟩
      exact .cons hc hcs

/-- A sequence in a scope of its own. -/
theorem LowersAll.sequence (h : LowersAll lib home limit L os es) :
    Lowers lib home limit L (Lowering.sequence os) (.inScope (exprs es)) := by
  refine @Builds.inScope _ _ (Expr.afterAll (exprs es))
    (fun sc O (p : Code × Ty) => p.2 = Expr.lastType .unit (exprs es) sc ∧
      Compiles lib home limit O p.1 (Expr.runLast .unit (exprs es) sc)) _ ?_
  refine (h.items .unit).map fun ⟨codes, t⟩ => ?_
  exact .pure fun _ _ sc O hc => ⟨hc.1, .block hc.2⟩

/-! ## Names and variables -/

theorem Scopes.tail_bind (sc : Scopes) (b : Binding) : (sc.bind b).tail = sc.tail := by
  cases sc <;> rfl

/-- A step that asks for the scopes. -/
theorem Builds.get {after : Scopes → Scopes} {P : Locals → Scopes → List Variable → β → Prop}
    {R : Scopes → List Variable → β → Prop} {k : Locals → LowerM β}
    (hk : ∀ ls, Builds L after (P ls) (k ls))
    (hR : ∀ ls sc O b, O.Nodup → (∀ name, (ls.find? name = none ∧ sc.lookup name = none) ∨
      ∃ l b, ls.find? name = some l ∧ sc.lookup name = some b ∧ Known O l b) →
        P ls sc O b → R sc O b) :
    Builds L after R (get >>= k) := by
  intro ls b ls' owners sc hrun hm hfresh
  obtain ⟨new, hnew, hm', htail, hP⟩ := hk ls _ _ _ _ _ hrun hm hfresh
  refine ⟨new, hnew, hm', htail,
    fun O hO hnodup => hR ls sc O b hnodup (fun name => ?_) (hP O hO hnodup)⟩
  rcases hm.find name with hnone | ⟨l, c, hl, hc, hknown⟩
  · exact Or.inl hnone
  · exact Or.inr ⟨l, c, hl, hc, hknown.mono ((List.prefix_append _ _).trans hO)⟩

section Forms

variable (hsees : Sees names D Γ lib calls limit)

include hsees

/-- A name is lowered to the slot of the variable it means, or to the global it means. -/
theorem Sees.name (symbol : String) (s : Span) :
    Lowers lib D.home limit [] (Lowering.name names symbol s) (name D symbol) := by
  refine Builds.get (P := fun ls sc O p =>
    (∃ l, ls.find? symbol = some l ∧ p = (.getLocal l.slot, l.type)) ∨
      (ls.find? symbol = none ∧ ∃ home i t, D.global? symbol = some (home, i, t) ∧ p.2 = t ∧
        Compiles lib D.home limit O p.1 (fun σ => do
          pure (← Run.present ((← get).global? home i), σ)))) (fun ls => ?_) ?_
  · rcases hls : ls.find? symbol with _ | l
    · dsimp only
      rcases hown : names.ownGlobal? symbol with _ | ⟨i, t⟩
      · dsimp only
        have hglobal := hsees.global_foreign hown
        rcases hforeign : names.foreignGlobal? symbol with _ | ⟨other, i, t⟩
        · exact .fail _ _
        · refine .pure fun sc O => Or.inr ⟨rfl, other, i, t, hglobal.trans hforeign, rfl, ?_⟩
          exact .foreignGlobal other i
      · exact .pure fun sc O => Or.inr ⟨rfl, D.home, i, t, hsees.global_own hown, rfl, .getGlobal i⟩
    · exact .pure fun sc O => Or.inl ⟨l, rfl, rfl⟩
  · rintro ls sc O ⟨code, type⟩ - hfind hp
    rcases hfind symbol with ⟨hls, hsc⟩ | ⟨l, b, hls, hsc, hknown⟩
    · rcases hp with ⟨l, hl, -⟩ | ⟨-, home, i, t, hglobal, rfl, hcode⟩
      · rw [hls] at hl
        cases hl
      · simp only [Source.name, hsc, hglobal]
        exact ⟨trivial, hcode⟩
    · rcases hp with ⟨l', hl, hcode⟩ | ⟨hnone, -⟩
      · rw [hls] at hl
        cases hl
        cases hcode
        simp only [Source.name, hsc]
        exact ⟨hknown.type, .getLocal hknown.slot⟩
      · rw [hls] at hnone
        cases hnone

theorem Sees.ofAtom (a : Atom) (s : Span) :
    Lowers lib D.home limit [] (Lowering.ofAtom names a s) (ofAtom D a) := by
  cases a with
  | int n => exact .pure fun sc O => ⟨rfl, .const _⟩
  | bool b => exact .pure fun sc O => ⟨rfl, .const _⟩
  | str text => exact .pure fun sc O => ⟨rfl, .const _⟩
  | sym symbol => exact hsees.name symbol s

omit hsees in
/-- A `let` gives the slot behind those of its value to a variable of its own. -/
theorem LowersAll.bind (h : LowersAll lib home limit L os es) (place : Place) (s : Span) :
    Lowers lib home limit (L ++ [.bound place]) (Lowering.bind os s) (bind place es) := by
  unfold Lowering.bind
  split
  · rename_i target _ valueTree value
    obtain ⟨M, N, d, e, rfl, rfl, -, hvalue⟩ := h.two
    refine Builds.lift_bind fun symbol hname => ?_
    have hsymbol : target.symbol?.getD "" = symbol := by
      rw [(declaredName_eq hname).1, Option.getD_some]
    intro ls p ls' owners sc hrun hm hfresh
    change (value ls >>= fun r => Except.ok ((Code.setLocal r.2.slots r.1.1, Ty.unit),
      r.2.declare symbol r.1.2)) = .ok (p, ls') at hrun
    rcases hxls : value ls with err | ⟨⟨code, type⟩, ls₁⟩
    · rw [hxls] at hrun
      cases hrun
    · rw [hxls] at hrun
      cases hrun
      have hN : N.Sublist (M ++ N ++ [.bound place]) :=
        (List.sublist_append_right M N).trans (List.sublist_append_left _ _)
      have hfresh' := hfresh.sublist (hN.append_left owners)
      obtain ⟨new, hnew, hm', htail, hQ⟩ := hvalue _ _ _ _ _ hxls hm hfresh'
      have htype : type = e.type sc :=
        (hQ _ (List.prefix_refl _) (hfresh'.sublist (hnew.append_left owners))).1
      subst htype hsymbol
      refine ⟨new ++ [.bound place], (hnew.trans (List.sublist_append_right M N)).append
        (List.Sublist.refl _), ?_, ?_, fun O hO hnodup => ⟨rfl, ?_⟩⟩
      · rw [← List.append_assoc]
        exact hm'.declare ⟨target.symbol?.getD "", .bound place, e.type sc⟩
      · rw [← htail]
        exact Scopes.tail_bind _ _
      · rw [← List.append_assoc] at hO
        refine .setLocal (hQ O ((List.prefix_append _ _).trans hO) hnodup).2 ?_ hnodup
        obtain ⟨rest, rfl⟩ := hO
        rw [hm'.slots, List.append_assoc, List.getElem?_append_right (Nat.le_refl _), Nat.sub_self]
        rfl
  · exact .fail _ _

/-- A `set` goes to the variable or to the unit's own global that the name means. -/
theorem Sees.assign (h : LowersAll lib D.home limit L os es) (s : Span) :
    Lowers lib D.home limit L (Lowering.assign names os s) (assign D es) := by
  unfold Lowering.assign
  split
  · rename_i target x value
    obtain ⟨M, N, d, e, rfl, rfl, -, hvalue⟩ := h.two
    refine Builds.weaken ?_ (List.sublist_append_right M N)
    rcases hsymbol : target.symbol? with _ | symbol
    · exact .fail _ _
    refine Builds.get (P := fun ls sc O p => p.2 = .unit ∧ ∃ code,
      Compiles lib D.home limit O code (e.run sc) ∧
        ((∃ l, ls.find? symbol = some l ∧ p.1 = .setLocal l.slot code) ∨
          (ls.find? symbol = none ∧ ∃ i t, D.ownGlobal? symbol = some (i, t) ∧
            p.1 = .setGlobal i code))) (fun ls => ?_) ?_
    · rcases hls : ls.find? symbol with _ | l
      · dsimp only
        rcases hown : names.ownGlobal? symbol with _ | ⟨i, t⟩
        · dsimp only
          split
          · exact .fail _ _
          · exact .fail _ _
        · refine (hvalue.expect value.1 t).map fun code => .pure fun _ _ sc O hc => ?_
          exact ⟨rfl, code, hc, Or.inr ⟨rfl, i, t, (hsees.ownGlobal symbol).trans hown, rfl⟩⟩
      · refine (hvalue.expect value.1 l.type).map fun code => .pure fun _ _ sc O hc => ?_
        exact ⟨rfl, code, hc, Or.inl ⟨l, rfl, rfl⟩⟩
    · rintro ls sc O ⟨_, _⟩ hnodup hfind ⟨rfl, code, hcode, hp⟩
      refine ⟨rfl, ?_⟩
      rcases hfind symbol with ⟨hls, hsc⟩ | ⟨l, b, hls, hsc, hknown⟩
      · rcases hp with ⟨l, hl, -⟩ | ⟨-, i, t, hown, rfl⟩
        · rw [hls] at hl
          cases hl
        · simp only [Source.assign, hsymbol, Option.getD_some, hsc, hown]
          exact hcode.setGlobal i
      · rcases hp with ⟨l', hl, rfl⟩ | ⟨hnone, -⟩
        · rw [hls] at hl
          cases hl
          simp only [Source.assign, hsymbol, Option.getD_some, hsc]
          exact hcode.setLocal hknown.slot hnodup
        · rw [hls] at hnone
          cases hnone
  · exact .fail _ _

end Forms

/-! ## Control -/

/-- A list of three operands. -/
theorem LowersAll.three {o p q : Kiln.Operand} (h : LowersAll lib home limit L [o, p, q] es) :
    ∃ M N K d e f, L = M ++ (N ++ K) ∧ es = [(o.1, d), (p.1, e), (q.1, f)] ∧
      Lowers lib home limit M o.2 d ∧ Lowers lib home limit N p.2 e ∧
      Lowers lib home limit K q.2 f := by
  cases h with
  | cons hx hxs =>
    obtain ⟨N, K, e, f, rfl, rfl, hy, hz⟩ := hxs.two
    exact ⟨_, N, K, _, e, f, rfl, rfl, hx, hy, hz⟩

theorem LowersAll.branch (h : LowersAll lib home limit L os es) (s : Span) :
    Lowers lib home limit L (Lowering.branch os s) (branch es) := by
  unfold Lowering.branch
  split
  · obtain ⟨M, N, d, e, rfl, rfl, hcond, hyes⟩ := h.two
    refine Builds.bind (hcond.expect _ .bool) (P := fun test sc O p => p.2 = .unit ∧ ∃ yes,
      p.1 = .branch test yes none ∧ Compiles lib home limit O yes (e.run sc.opened))
      (fun test => (Builds.inScope hyes).map fun ⟨yes, left⟩ => ?_) (fun _ => rfl) ?_
    · exact .pure fun _ _ sc O hc => ⟨rfl, yes, rfl, hc.2⟩
    · rintro sc O test ⟨_, _⟩ htest ⟨rfl, yes, rfl, hyes⟩
      exact ⟨rfl, .branch_none htest.tests hyes⟩
  · obtain ⟨M, N, K, d, e, f, rfl, rfl, hcond, hyes, hno⟩ := h.three
    refine @Builds.bind _ _ _ _ _ id _ _ (fun test sc O p =>
      p.2 = branchType (e.type sc.opened) (f.type sc.opened) ∧ ∃ yes no,
        p.1 = .branch test yes (some no) ∧ Compiles lib home limit O yes (e.run sc.opened) ∧
        Compiles lib home limit O no (f.run sc.opened)) _ _ _ (hcond.expect _ .bool)
      (fun test => ?_) (fun _ => rfl) ?_
    · refine Builds.bind (Builds.inScope hyes) (P := fun p sc O q =>
        q.2 = branchType p.2 (f.type sc.opened) ∧ ∃ no, q.1 = .branch test p.1 (some no) ∧
          Compiles lib home limit O no (f.run sc.opened))
        (fun ⟨yes, left⟩ => (Builds.inScope hno).map fun ⟨no, right⟩ => ?_) (fun _ => rfl) ?_
      · refine .pure fun _ _ sc O hc => ⟨?_, no, rfl, hc.2⟩
        rw [← hc.1]
        rfl
      · rintro sc O ⟨yes, left⟩ ⟨_, _⟩ ⟨hleft, hyes⟩ ⟨rfl, no, rfl, hno⟩
        exact ⟨hleft ▸ rfl, yes, no, rfl, hyes, hno⟩
    · rintro sc O test ⟨_, _⟩ htest ⟨rfl, yes, no, rfl, hyes, hno⟩
      exact ⟨rfl, .branch htest.tests hyes hno⟩
  · exact .fail _ _

theorem LowersAll.loop (h : LowersAll lib home limit L os es) (s : Span) :
    Lowers lib home limit L (Lowering.loop os s) (loop es) := by
  unfold Lowering.loop
  split
  · rename_i cond body
    cases h with
    | @cons _ _ _ _ _ _ es hcond hbody =>
      refine @Builds.bind _ _ _ _ _ id _ _ (fun test sc O p => p.2 = .unit ∧ ∃ code,
        p.1 = .loop test code ∧ Compiles lib home limit O code ((Expr.inScope (exprs es)).run sc))
        _ _ _ (hcond.expect _ .bool) (fun test => hbody.sequence.map fun ⟨code, t⟩ => ?_)
        (fun _ => rfl) ?_
      · exact .pure fun _ _ sc O hc => ⟨rfl, code, rfl, hc.2⟩
      · rintro sc O test ⟨_, _⟩ htest ⟨rfl, code, rfl, hcode⟩
        exact ⟨rfl, .loop htest.tests hcode⟩
  · exact .fail _ _

/-- Truth values joined one after the other from the left, the first of them given. -/
def joined (comb : (Variables → Run (Bool × Variables)) → (Variables → Run (Bool × Variables)) →
    Variables → Run (Bool × Variables)) (first : Variables → Run (Bool × Variables)) :
    List Expr → Scopes → Variables → Run (Bool × Variables)
  | [], _ => first
  | e :: es, sc => joined comb (comb first (e.truth sc)) es (e.after sc)

/-- Joining from the left is the search from left to right, where joining is associative. -/
theorem LowersAll.joins
    (comb : (Variables → Run (Bool × Variables)) → (Variables → Run (Bool × Variables)) →
      Variables → Run (Bool × Variables))
    {search : List Expr → Scopes → Variables → Run (Bool × Variables)} (join : Code → Code → Code)
    (hnil : ∀ first sc, comb first (search [] sc) = first)
    (hcons : ∀ e es sc, search (e :: es) sc = comb (e.truth sc) (search es (e.after sc)))
    (hassoc : ∀ r s t, comb (comb r s) t = comb r (comb s t))
    (hjoin : ∀ {O c d s t}, Tests lib home limit O c s → Tests lib home limit O d t →
      Decides lib home limit O (join c d) (comb s t))
    (h : LowersAll lib home limit L os es) (word : String) (s : Span) :
    Lowers lib home limit L (Lowering.chain word join os s) (chain search es) := by
  have hjoined : ∀ es sc first, joined comb first es sc = comb first (search es sc) := by
    intro es
    induction es with
    | nil => exact fun sc first => (hnil first sc).symm
    | cons e es ih => exact fun sc first => by rw [joined, ih, hassoc, ← hcons]
  have hfold : ∀ {L os es}, LowersAll lib home limit L os es → ∀ code,
      Builds L (Expr.afterAll (exprs es)) (fun sc O c => ∀ first,
        Decides lib home limit O code first →
          Decides lib home limit O c (joined comb first (exprs es) sc))
        (os.foldlM (fun code o => return join code (← Lowering.expect o .bool)) code) := by
    intro L os es h
    induction h with
    | nil => exact fun code => .pure fun _ _ _ hfirst => hfirst
    | @cons _ _ t x e os es hx _ ih =>
      intro code
      rw [List.foldlM_cons]
      refine Builds.bind ((hx.expect t .bool).map (R := fun sc O c => ∀ first,
        Decides lib home limit O code first →
          Decides lib home limit O c (comb first (e.truth sc))) fun d => ?_) ih (fun _ => rfl) ?_
      · exact .pure fun _ _ sc O hd first hfirst => hjoin hfirst.tests hd.tests
      · exact fun sc O c c' hc hc' first hfirst => hc' _ (hc first hfirst)
  unfold Lowering.chain
  split
  · cases h with
    | @cons _ _ _ _ d _ _ hx hxs =>
      cases hxs with
      | @cons _ _ u y e os es hy hys =>
        refine @Builds.bind _ _ _ _ _ (Expr.afterAll (e :: exprs es)) _ _
          (fun code sc O p => p.2 = .bool ∧ ∀ first, Tests lib home limit O code first →
            Decides lib home limit O p.1 (comb first (search (e :: exprs es) sc)))
          _ _ _ (hx.expect _ .bool) (fun code => ?_) (fun _ => rfl) ?_
        · rw [List.foldlM_cons, bind_assoc]
          refine @Builds.bind _ _ _ _ _ (Expr.afterAll (exprs es)) _ _
            (fun code sc O p => p.2 = .bool ∧ ∀ first, Decides lib home limit O code first →
              Decides lib home limit O p.1 (joined comb first (exprs es) sc)) _ _ _
            ((hy.expect u .bool).map (R := fun sc O c => ∀ first,
              Tests lib home limit O code first →
                Decides lib home limit O c (comb first (e.truth sc))) fun d => ?_)
            (fun c => (hfold hys c).map fun c' => ?_) (fun _ => rfl) ?_
          · exact .pure fun _ _ sc O hd first hfirst => hjoin hfirst hd.tests
          · exact .pure fun _ _ sc O hc => ⟨rfl, hc⟩
          · rintro sc O c ⟨c', _⟩ hc ⟨rfl, hc'⟩
            refine ⟨rfl, fun first hfirst => ?_⟩
            rw [hcons, ← hassoc, ← hjoined]
            exact hc' _ (hc first hfirst)
        · rintro sc O code ⟨c, _⟩ hcode ⟨rfl, hc⟩
          have hall := hc (d.truth sc) hcode.truth
          rw [← hcons] at hall
          exact ⟨rfl, hall⟩
  · exact .fail _ _

theorem LowersAll.all (h : LowersAll lib home limit L os es) (s : Span) :
    Lowers lib home limit L (Lowering.chain "and" .and os s) (chain Expr.allTrue es) := by
  refine h.joins both .and ?_ (fun _ _ _ => rfl) ?_ Decides.and "and" s
  · intro first sc
    funext σ
    refine (congrArg (first σ >>= ·) (funext fun ⟨b, σ⟩ => ?_)).trans (bind_pure _)
    cases b <;> rfl
  · intro r s t
    funext σ
    simp only [both, bind_assoc]
    congr 1
    funext ⟨b, σ⟩
    cases b <;> simp

theorem LowersAll.any (h : LowersAll lib home limit L os es) (s : Span) :
    Lowers lib home limit L (Lowering.chain "or" .or os s) (chain Expr.anyTrue es) := by
  refine h.joins either .or ?_ (fun _ _ _ => rfl) ?_ Decides.or "or" s
  · intro first sc
    funext σ
    refine (congrArg (first σ >>= ·) (funext fun ⟨b, σ⟩ => ?_)).trans (bind_pure _)
    cases b <;> rfl
  · intro r s t
    funext σ
    simp only [either, bind_assoc]
    congr 1
    funext ⟨b, σ⟩
    cases b <;> simp

/-! ## Types and fields -/

theorem Lowers.literal {v : Value} {t : Ty} :
    Lowers lib home limit L (pure (.const v, t)) (.literal v t) :=
  .weaken (.pure fun _ _ => ⟨rfl, .const v⟩) (List.nil_sublist L)

section Forms

variable (hsees : Sees names D Γ lib calls limit)

include hsees

/-- A step behind a type that is spelled. -/
theorem Sees.lift_type {Q : Scopes → List Variable → β → Prop} {after : Scopes → Scopes}
    {spelled : Tree} {k : Ty → LowerM β} (h : Builds L after Q (k (D.typeOf spelled))) :
    Builds L after Q (liftM (names.resolveType spelled) >>= k) :=
  Builds.lift_bind fun _ ht => hsees.type ht ▸ h

/-- A field that is found is the field of that name. -/
theorem Sees.fieldOf (ref : StructRef) (field : Tree) :
    Builds [] id (fun _ _ p => fieldIndex Γ (.struct ref) field = p.1 ∧
      fieldOf Γ (.struct ref) field = p.2) (Lowering.fieldOf names ref field) := by
  unfold Lowering.fieldOf
  rcases hsymbol : field.symbol? with _ | wanted
  · exact .fail _ _
  · dsimp only
    split
    · rename_i i f hi hf
      refine .pure fun _ _ => ?_
      rw [hsees.layouts] at hi hf
      rw [fieldIndex, Source.fieldOf, layoutOf, hsymbol, Option.getD_some, hi, hf]
      exact ⟨rfl, rfl⟩
    · exact .fail _ _

theorem Sees.sizeOf (h : LowersAll lib D.home limit L os es) (place : Place) (s : Span) :
    Lowers lib D.home limit L (Lowering.sizeOf names os s)
      (form D Γ lib.layouts place .sizeOf es) := by
  unfold Lowering.sizeOf
  split
  · obtain ⟨e, rfl, -⟩ := h.one
    refine hsees.lift_type ?_
    rw [hsees.layouts]
    exact Lowers.literal
  · exact .fail _ _

theorem Sees.zeroed (h : LowersAll lib D.home limit L os es) (place : Place) (s : Span) :
    Lowers lib D.home limit L (Lowering.zeroed names os s)
      (form D Γ lib.layouts place .zeroed es) := by
  unfold Lowering.zeroed
  split
  · obtain ⟨e, rfl, -⟩ := h.one
    refine hsees.lift_type ?_
    rw [hsees.layouts]
    exact Lowers.literal
  · exact .fail _ _

theorem Sees.fieldPointer (h : LowersAll lib D.home limit L os es) (place : Place) (s : Span) :
    Lowers lib D.home limit L (Lowering.fieldPointer names os s)
      (form D Γ lib.layouts place .fieldPointer es) := by
  unfold Lowering.fieldPointer
  split
  · obtain ⟨M, N, d, e, rfl, rfl, hbase, -⟩ := h.two
    refine Builds.weaken ?_ (List.sublist_append_left M N)
    refine (hbase.expectPointer _).map fun ⟨code, target⟩ => ?_
    dsimp only
    split
    · rename_i ref
      refine (hsees.fieldOf ref _).map fun ⟨i, f⟩ => ?_
      refine .pure fun _ _ _ _ hf sc O hc => ?_
      simp only [form, Expr.map, hc.1, pointee, hf.2]
      exact ⟨trivial, hc.2.fieldPtr _ _⟩
    · exact .fail _ _
  · exact .fail _ _

theorem Sees.fieldValue (h : LowersAll lib D.home limit L os es) (place : Place) (s : Span) :
    Lowers lib D.home limit L (Lowering.fieldValue names os s)
      (form D Γ lib.layouts place .fieldValue es) := by
  unfold Lowering.fieldValue
  split
  · obtain ⟨M, N, d, e, rfl, rfl, hbase, -⟩ := h.two
    refine Builds.weaken ?_ (List.sublist_append_left M N)
    refine Builds.map hbase fun ⟨code, type⟩ => ?_
    dsimp only
    split
    · rename_i ref
      refine (hsees.fieldOf ref _).map fun ⟨i, f⟩ => ?_
      refine .pure fun _ _ _ _ hf sc O hc => ?_
      simp only [form, Expr.map, ← hc.1, hf.1, hf.2]
      exact ⟨trivial, hc.2.fieldGet _⟩
    · exact .fail _ _
  · exact .fail _ _

theorem Sees.make (h : LowersAll lib D.home limit L os es) (s : Span) :
    Lowers lib D.home limit L (Lowering.make names os s) (make D es) := by
  unfold Lowering.make
  split
  · cases h with
    | @cons M N _ _ _ _ es _ hvalues =>
      refine Builds.weaken (hsees.lift_type ?_) (List.sublist_append_right M N)
      split
      · rename_i ref href
        dsimp only
        split
        · exact .fail _ _
        · rename_i hlen
          refine (hvalues.expectAll (by simpa using hlen)).map fun codes => ?_
          refine .pure fun _ _ sc O hc => ⟨rfl, ?_⟩
          simp only [Source.make, Expr.mapAll, href]
          exact .make hc ref
      · exact .fail _ _
  · exact .fail _ _

theorem Sees.cast (h : LowersAll lib D.home limit L os es) (place : Place) (s : Span) :
    Lowers lib D.home limit L (Lowering.cast names os s) (form D Γ lib.layouts place .cast es) := by
  unfold Lowering.cast
  split
  · obtain ⟨M, N, d, e, rfl, rfl, -, hvalue⟩ := h.two
    refine Builds.weaken (hsees.lift_type ?_) (List.sublist_append_right M N)
    refine Builds.map hvalue fun ⟨code, found⟩ => ?_
    dsimp only
    split
    · exact .pure fun _ _ sc O hc => ⟨rfl, hc.2.cast _⟩
    · exact .fail _ _
  · exact .fail _ _

theorem Sees.offset (h : LowersAll lib D.home limit L os es) (place : Place) (s : Span) :
    Lowers lib D.home limit L (Lowering.offset names os s)
      (form D Γ lib.layouts place .offset es) := by
  unfold Lowering.offset
  split
  · obtain ⟨M, N, d, e, rfl, rfl, hptr, hcount⟩ := h.two
    refine @Builds.bind _ _ _ _ _ e.after _ _ (fun p sc O q => q.2 = .ptr p.2 ∧ ∃ code,
      q.1 = .offset p.1 code (p.2.size Γ) ∧
        Compiles lib D.home limit O code (e.run sc)) _ _ _ (hptr.expectPointer _)
      (fun ⟨code, target⟩ => (hcount.expectInteger _).map fun ⟨n, _⟩ => ?_) (fun _ => rfl) ?_
    · refine .pure fun _ _ sc O hc => ⟨rfl, n, ?_, hc.2⟩
      rw [hsees.layouts]
    · rintro sc O ⟨code, target⟩ ⟨_, _⟩ hc ⟨rfl, n, rfl, hn⟩
      simp only [form, Expr.map₂, hc.1, pointee]
      exact ⟨trivial, hc.2.offset hn _⟩
  · exact .fail _ _

theorem Sees.sequenceOf (h : LowersAll lib D.home limit L os es) (place : Place) (s : Span) :
    Lowers lib D.home limit L (Lowering.sequenceOf names os s)
      (form D Γ lib.layouts place .sequenceOf es) := by
  unfold Lowering.sequenceOf
  split
  · cases h with
    | @cons M N _ _ _ _ es _ hvalues =>
      refine Builds.weaken (hsees.lift_type ?_) (List.sublist_append_right M N)
      split
      · refine (hvalues.expectAll (List.length_map _)).map fun codes => ?_
        exact .pure fun _ _ sc O hc => ⟨rfl, .seqLit hc _⟩
      · exact .fail _ _
  · exact .fail _ _

omit hsees

theorem LowersAll.negation (h : LowersAll lib D.home limit L os es) (place : Place) (s : Span) :
    Lowers lib D.home limit L (Lowering.negation os s)
      (form D Γ lib.layouts place .negation es) := by
  unfold Lowering.negation
  split
  · obtain ⟨e, rfl, hvalue⟩ := h.one
    refine (hvalue.expect _ .bool).map fun code => ?_
    exact .pure fun _ _ sc O hc => ⟨rfl, .not hc.truth⟩
  · exact .fail _ _

theorem LowersAll.load (h : LowersAll lib D.home limit L os es) (place : Place) (s : Span) :
    Lowers lib D.home limit L (Lowering.load os s) (form D Γ lib.layouts place .load es) := by
  unfold Lowering.load
  split
  · obtain ⟨e, rfl, hptr⟩ := h.one
    refine (hptr.expectPlace _).map fun ⟨code, type⟩ => .pure fun _ _ sc O hc => ?_
    simp only [form, Expr.map, hc.1, pointee]
    exact ⟨trivial, hc.2.load type⟩
  · exact .fail _ _

theorem LowersAll.store (h : LowersAll lib D.home limit L os es) (place : Place) (s : Span) :
    Lowers lib D.home limit L (Lowering.store os s) (form D Γ lib.layouts place .store es) := by
  unfold Lowering.store
  split
  · obtain ⟨M, N, d, e, rfl, rfl, hptr, hvalue⟩ := h.two
    refine @Builds.bind _ _ _ _ _ e.after _ _ (fun p sc O q => q.2 = .unit ∧ ∃ code,
      q.1 = .store p.1 code p.2 ∧ Compiles lib D.home limit O code (e.run sc)) _ _ _
      (hptr.expectPlace _) (fun ⟨code, type⟩ => (hvalue.expect _ type).map fun value => ?_)
      (fun _ => rfl) ?_
    · exact .pure fun _ _ sc O hc => ⟨rfl, value, rfl, hc⟩
    · rintro sc O ⟨code, type⟩ ⟨_, _⟩ hc ⟨rfl, value, rfl, hvalue⟩
      simp only [form, Expr.map₂, hc.1, pointee]
      exact ⟨trivial, hc.2.store hvalue type⟩
  · exact .fail _ _

theorem LowersAll.address (h : LowersAll lib D.home limit L os es) (place : Place) (s : Span) :
    Lowers lib D.home limit L (Lowering.address os s) (form D Γ lib.layouts place .address es) := by
  unfold Lowering.address
  split
  · obtain ⟨e, rfl, hptr⟩ := h.one
    refine (hptr.expectPointer _).map fun ⟨code, _⟩ => ?_
    exact .pure fun _ _ sc O hc => ⟨rfl, hc.2.addr⟩
  · exact .fail _ _

theorem LowersAll.length (h : LowersAll lib D.home limit L os es) (place : Place) (s : Span) :
    Lowers lib D.home limit L (Lowering.length os s) (form D Γ lib.layouts place .length es) := by
  unfold Lowering.length
  split
  · obtain ⟨e, rfl, hseq⟩ := h.one
    refine Builds.map hseq fun ⟨code, found⟩ => ?_
    dsimp only
    split
    · exact .pure fun _ _ sc O hc => ⟨rfl, hc.2.seqLen⟩
    · exact .fail _ _
  · exact .fail _ _

theorem LowersAll.copySequence (h : LowersAll lib D.home limit L os es) (place : Place)
    (s : Span) :
    Lowers lib D.home limit L (Lowering.copySequence os s)
      (form D Γ lib.layouts place .copySequence es) := by
  unfold Lowering.copySequence
  split
  · obtain ⟨M, N, d, e, rfl, rfl, hdst, hseq⟩ := h.two
    refine @Builds.bind _ _ _ _ _ e.after _ _ (fun p sc O q => q.2 = .unit ∧ ∃ code,
      q.1 = .seqCopy p.1 code ∧ Compiles lib D.home limit O code (e.run sc)) _ _ _
      (hdst.expectPointer _) (fun ⟨place, target⟩ => Builds.map hseq fun ⟨code, found⟩ => ?_)
      (fun _ => rfl) ?_
    · dsimp only
      split
      · exact .pure fun _ _ sc O hc => ⟨rfl, code, rfl, hc.2⟩
      · exact .fail _ _
    · rintro sc O ⟨dst, target⟩ ⟨_, _⟩ hc ⟨rfl, code, rfl, hcode⟩
      exact ⟨rfl, hc.2.seqCopy hcode⟩
  · exact .fail _ _

/-! ## All forms, operators and calls -/

theorem LowersAll.binary (h : LowersAll lib home limit L os es) (op : BinaryOp) (s : Span) :
    Lowers lib home limit L (Lowering.binary op os s) (binary op es) := by
  unfold Lowering.binary
  split
  · obtain ⟨M, N, d, e, rfl, rfl, hleft, hright⟩ := h.two
    refine @Builds.bind _ _ _ _ _ e.after _ _ (fun p sc O q =>
      q.2 = resultType op p.2 ∧ ∃ code,
        q.1 = .binary op p.1 code ∧ Compiles lib home limit O code (e.run sc)) _ _ _ hleft
      (fun ⟨a, leftType⟩ => Builds.map hright fun ⟨b, rightType⟩ => ?_) (fun _ => rfl) ?_
    · dsimp only
      split
      · rename_i heq
        have hbool : .bool = resultType op leftType := by
          cases op <;> first | rfl | exact absurd heq Bool.false_ne_true
        split
        · exact .pure fun _ _ sc O hc => ⟨hbool, b, rfl, hc.2⟩
        · exact .fail _ _
      · split
        · exact .fail _ _
        · split
          · exact .fail _ _
          · exact .pure fun _ _ sc O hc => ⟨rfl, b, rfl, hc.2⟩
    · rintro sc O ⟨a, leftType⟩ ⟨_, _⟩ ⟨hleft, ha⟩ ⟨rfl, b, rfl, hb⟩
      dsimp only at hleft
      subst hleft
      exact ⟨rfl, ha.binary hb op⟩
  · obtain ⟨e, rfl, hvalue⟩ := h.one
    split
    · refine (hvalue.expectInteger _).map fun ⟨code, type⟩ => ?_
      exact .pure fun _ _ sc O hc => ⟨hc.1, hc.2.negative⟩
    · exact .fail _ _
  · exact .fail _ _

include hsees

theorem Sees.call (h : LowersAll lib D.home limit L os es) (function : String) (head : Tree)
    (s : Span) :
    Lowers lib D.home limit L (Lowering.call names function head os s)
      (call D calls function es) := by
  unfold Lowering.call
  rcases hfound : names.function? function with _ | ⟨callee, params, result⟩
  · exact .fail _ _
  · obtain ⟨f, hf, hfollows⟩ := hsees.function hfound
    dsimp only
    split
    · exact .fail _ _
    · rename_i hlen
      rw [Source.call, hf]
      refine (h.arguments function (not_not.1 hlen)).map fun codes => ?_
      exact .pure fun _ _ sc O hc => ⟨rfl, .call hc rfl hfollows⟩

theorem Sees.form (h : LowersAll lib D.home limit L os es) (f : Form) (place : Place) (s : Span) :
    Lowers lib D.home limit (L ++ [.bound place]) (Lowering.form names f os s)
      (form D Γ lib.layouts place f es) := by
  have hL : L.Sublist (L ++ [.bound place]) := List.sublist_append_left _ _
  cases f with
  | bind => exact h.bind place s
  | sequence => exact Builds.weaken h.sequence hL
  | assign => exact Builds.weaken (hsees.assign h s) hL
  | branch => exact Builds.weaken (h.branch s) hL
  | loop => exact Builds.weaken (h.loop s) hL
  | all => exact Builds.weaken (h.all s) hL
  | any => exact Builds.weaken (h.any s) hL
  | negation => exact Builds.weaken (h.negation place s) hL
  | sizeOf => exact Builds.weaken (hsees.sizeOf h place s) hL
  | zeroed => exact Builds.weaken (hsees.zeroed h place s) hL
  | fieldPointer => exact Builds.weaken (hsees.fieldPointer h place s) hL
  | fieldValue => exact Builds.weaken (hsees.fieldValue h place s) hL
  | make => exact Builds.weaken (hsees.make h s) hL
  | load => exact Builds.weaken (h.load place s) hL
  | store => exact Builds.weaken (h.store place s) hL
  | cast => exact Builds.weaken (hsees.cast h place s) hL
  | offset => exact Builds.weaken (hsees.offset h place s) hL
  | address => exact Builds.weaken (h.address place s) hL
  | sequenceOf => exact Builds.weaken (hsees.sequenceOf h place s) hL
  | length => exact Builds.weaken (h.length place s) hL
  | copySequence => exact Builds.weaken (h.copySequence place s) hL

theorem Sees.ofItems (h : LowersAll lib D.home limit L os es) (place : Place) (s : Span) :
    Lowers lib D.home limit (L ++ [.bound place]) (Lowering.ofItems names os s)
      (ofItems D Γ lib.layouts calls place es) := by
  have hL : ∀ {L : List Variable}, L.Sublist (L ++ [.bound place]) :=
    List.sublist_append_left _ _
  cases h with
  | nil => exact Lowers.literal
  | @cons K M head _ _ args es _ hargs =>
    have hM : M.Sublist (K ++ M ++ [.bound place]) := (List.sublist_append_right K M).trans hL
    unfold Lowering.ofItems Source.ofItems
    dsimp only
    rcases head.symbol? with _ | word
    · exact .fail _ _
    · dsimp only
      rcases BinaryOp.ofSymbol? word with _ | op
      · rcases Form.ofWord? word with _ | f
        · exact Builds.weaken (hsees.call hargs word head s) hM
        · exact Builds.weaken (hsees.form hargs f place s)
            ((List.sublist_append_right K M).append_right _)
      · exact Builds.weaken (hargs.binary op s) hM

end Forms

/-! ## Trees -/

/-- The variables of the items of a list, from place `k` on. -/
def declaredAll (place : Place) : Nat → List (Tree × (Place → List Variable)) → List Variable
  | _, [] => []
  | k, (_, vars) :: rest => vars (k :: place) ++ declaredAll place (k + 1) rest

/-- The variables that a tree at a place has room for: one for each list in it. -/
def declared (t : Tree) : Place → List Variable :=
  t.fold (fun _ _ _ => []) fun items _ place => declaredAll place 0 items ++ [.bound place]

theorem LowersAll.placed {items : List Tree} (hitems : ∀ t ∈ items, ∀ place,
      Lowers lib D.home limit (declared t place) (Lowering.ofTree names t)
        (ofTree D Γ lib.layouts calls t place)) (place : Place) :
    ∀ k, LowersAll lib D.home limit (declaredAll place k (items.map fun t => (t, declared t)))
      (items.map (Lowering.operand names))
      (placed place k (items.map fun t => (t, ofTree D Γ lib.layouts calls t))) := by
  induction items with
  | nil => exact fun k => .nil
  | cons t items ih =>
    intro k
    exact .cons (hitems t List.mem_cons_self _)
      (ih (fun u hu => hitems u (List.mem_cons_of_mem t hu)) (k + 1))

/-- **What lowers a tree gives code that does what the tree means**, if it is not refused. -/
theorem Sees.ofTree (hsees : Sees names D Γ lib calls limit) (t : Tree) : ∀ place,
    Lowers lib D.home limit (declared t place) (Lowering.ofTree names t)
      (ofTree D Γ lib.layouts calls t place) := by
  induction t using Tree.inductItems with
  | leaf a s => exact fun place => hsees.ofAtom a s
  | node items s ih =>
    intro place
    have h := hsees.ofItems (LowersAll.placed ih place 0) place s
    rw [declared, Lowering.ofTree, Source.ofTree, Tree.fold, Tree.fold, Tree.fold,
      Tree.foldAll_eq_map, Tree.foldAll_eq_map, Tree.foldAll_eq_map]
    exact h

end Source

end Kiln
