import Kiln.Proofs.Machine.Following
import Kiln.Proofs.Source.Meaning
import Mathlib.Data.List.Forall2
import Mathlib.Data.List.Nodup
/-!
# Slots and variables

Lowering gives each variable of a body a slot. Which variable owns which slot is a list of
variables (`owners`), which only grows while a body is lowered: the slots taken so far and
the scopes agree with it (`Matches`), and so does, in any run, the frame, which holds the
value of each slot's owner (`Tracks`).

`Builds` says of a step of lowering what it does to the scopes and which variables it
declares, and carries a property of what it results in, which may rely on all owners there
will be; `Builds.bind` composes such steps.
-/

namespace Kiln

namespace Source

variable {α β γ δ : Type} {owners more : List Variable} {ls : Locals} {sc : Scopes}

/-! ## Scopes that agree -/

/-- A variable in scope and a binding of one name and type, where the variable owns the
slot. -/
structure Known (owners : List Variable) (l : Local) (b : Binding) : Prop where
  name : l.name = b.name
  type : l.type = b.type
  slot : owners[l.slot]? = some b.var

/-- The owners are as many as there are slots taken, and the scopes agree. -/
structure Matches (owners : List Variable) (ls : Locals) (sc : Scopes) : Prop where
  slots : ls.slots = owners.length
  scopes : List.Forall₂ (List.Forall₂ (Known owners)) ls.scopes sc

theorem Known.mono {l : Local} {b : Binding} (h : Known owners l b) (hle : owners <+: more) :
    Known more l b where
  name := h.name
  type := h.type
  slot := by
    obtain ⟨rest, rfl⟩ := hle
    rw [List.getElem?_append_left (List.getElem?_eq_some_iff.1 h.slot).1]
    exact h.slot

namespace Matches

/-- Scopes agree still when there are more owners. -/
theorem scopes_mono (h : Matches owners ls sc) (hle : owners <+: more) :
    List.Forall₂ (List.Forall₂ (Known more)) ls.scopes sc :=
  h.scopes.imp fun _ _ hs => hs.imp fun _ _ hk => hk.mono hle

theorem enter (h : Matches owners ls sc) : Matches owners ls.enter sc.opened :=
  ⟨h.slots, .cons .nil h.scopes⟩

theorem leave {outer : Scopes} (h : Matches owners ls sc) (hsc : sc.tail = outer) :
    Matches owners ls.leave outer := by
  refine ⟨h.slots, ?_⟩
  have hscopes := h.scopes
  subst hsc
  rw [Locals.leave]
  generalize ls.scopes = scopes at hscopes
  cases hscopes with
  | nil => exact .nil
  | cons _ ht => exact ht

/-- A new variable owns the next slot. -/
theorem declare (h : Matches owners ls sc) (b : Binding) :
    Matches (owners ++ [b.var]) (ls.declare b.name b.type) (sc.bind b) := by
  have hscopes := h.scopes_mono (List.prefix_append owners [b.var])
  have hslots : (owners ++ [b.var]).length = ls.slots + 1 := by
    rw [h.slots, List.length_append, List.length_singleton]
  obtain ⟨scopes, slots⟩ := ls
  cases hscopes with
  | nil => exact ⟨hslots.symm, .nil⟩
  | cons hs ht =>
    refine ⟨hslots.symm, .cons (.cons ⟨rfl, rfl, ?_⟩ hs) ht⟩
    have hlen : slots = owners.length := h.slots
    rw [hlen, List.getElem?_concat_length]

theorem find_scope {scope : List Local} {bindings : List Binding}
    (h : List.Forall₂ (Known owners) scope bindings) (name : String) :
    (scope.find? (·.name = name) = none ∧ bindings.find? (·.name = name) = none) ∨
      ∃ l b, scope.find? (·.name = name) = some l ∧ bindings.find? (·.name = name) = some b ∧
        Known owners l b := by
  induction h with
  | nil => exact Or.inl ⟨rfl, rfl⟩
  | @cons l b _ _ hk _ ih =>
    by_cases hname : l.name = name
    · refine Or.inr ⟨l, b, ?_, ?_, hk⟩
      · exact List.find?_cons_of_pos (decide_eq_true hname)
      · exact List.find?_cons_of_pos (decide_eq_true (hk.name ▸ hname))
    · rwa [List.find?_cons_of_neg (by simpa using hname),
        List.find?_cons_of_neg (by rw [← hk.name]; simpa using hname)]

/-- **A name means the variable that owns the slot it is lowered to.** -/
theorem find (h : Matches owners ls sc) (name : String) :
    (ls.find? name = none ∧ sc.lookup name = none) ∨
      ∃ l b, ls.find? name = some l ∧ sc.lookup name = some b ∧ Known owners l b := by
  have hscopes := h.scopes
  rw [Locals.find?, Scopes.lookup]
  generalize ls.scopes = scopes at hscopes
  clear h
  induction hscopes with
  | nil => exact Or.inl ⟨rfl, rfl⟩
  | cons hs _ ih =>
    rw [List.flatten_cons, List.find?_append, List.findSome?_cons]
    rcases find_scope hs name with ⟨hl, hb⟩ | ⟨l, b, hl, hb, hk⟩
    · rw [hl, hb]
      exact ih
    · rw [hl, hb]
      exact Or.inr ⟨l, b, rfl, rfl, hk⟩

end Matches

/-! ## Frames that agree -/

/-- The same value, and a frame that holds the values of the slots' owners. -/
def Agree (O : List Variable) (p : α × Frame) (q : α × Variables) : Prop :=
  p.1 = q.1 ∧ p.2 = O.map q.2

/-- A run in a frame and a run on the variables, from any values the variables may have. -/
def Tracks (O : List Variable) (x : Frame → Run (α × Frame)) (y : Variables → Run (α × Variables)) :
    Prop :=
  ∀ σ, Run.Follows (Agree O) (x (O.map σ)) (y σ)

variable {O : List Variable}

theorem Agree.pure (a : α) (σ : Variables) :
    Run.Follows (Agree O) (pure (a, O.map σ)) (pure (a, σ)) := .pure ⟨rfl, rfl⟩

/-- Runs that agree so far, and go on alike. -/
theorem step {R : γ → δ → Prop} {x : Run (α × Frame)} {y : Run (α × Variables)}
    {f : α × Frame → Run γ} {g : α × Variables → Run δ} (hx : Run.Follows (Agree O) x y)
    (hf : ∀ a σ, Run.Follows R (f (a, O.map σ)) (g (a, σ))) :
    Run.Follows R (x >>= f) (y >>= g) := by
  refine hx.bind ?_
  rintro ⟨a, fr⟩ ⟨b, σ⟩ ⟨hab, hfr⟩
  dsimp only at hab hfr
  subst hab hfr
  exact hf a σ

/-- What is made of a value without the frame. -/
theorem finish (x : Run α) (σ : Variables) :
    Run.Follows (Agree O) (x >>= fun a => pure (a, O.map σ)) (x >>= fun a => pure (a, σ)) :=
  .bind_eq (.refl x) fun a => Agree.pure a σ

theorem map_getElem? {i : Nat} {x : Variable} (h : O[i]? = some x) (σ : Variables) :
    (O.map σ)[i]? = some (σ x) := by
  rw [List.getElem?_map, h]
  rfl

/-- Setting a slot is setting its owner. -/
theorem map_set {i : Nat} {x : Variable} (h : O[i]? = some x) (hO : O.Nodup) (σ : Variables)
    (v : Value) : (O.map σ).set i v = O.map (σ.set x v) := by
  refine List.ext_getElem? fun j => ?_
  rw [List.getElem?_set, List.length_map, List.getElem?_map, List.getElem?_map]
  obtain ⟨hi, hx⟩ := List.getElem?_eq_some_iff.1 h
  by_cases hij : i = j
  · subst hij
    rw [if_pos rfl, if_pos hi, h, Option.map_some, Variables.set, if_pos rfl]
  · rw [if_neg hij]
    rcases hj : O[j]? with _ | y
    · rfl
    · have hne : y ≠ x := fun hyx => by
        obtain ⟨hj', hy⟩ := List.getElem?_eq_some_iff.1 hj
        exact hij ((hO.getElem_inj_iff).1 (hx.trans (hyx ▸ hy.symm)))
      rw [Option.map_some, Option.map_some, Variables.set, if_neg hne]

/-! ## Steps of lowering -/

/-- A step of lowering that is not refused declares some of the variables of `L`, if they
are none there are already. It leaves the scopes as `after` says, of which the outer ones
stay as they were, and results in something that has the property `Q`, whatever variables
will be declared later. -/
def Builds (L : List Variable) (after : Scopes → Scopes) (Q : Scopes → List Variable → α → Prop)
    (x : LowerM α) : Prop :=
  ∀ ls a ls' owners sc, x ls = .ok (a, ls') → Matches owners ls sc →
    (owners ++ L).Nodup → ∃ new, new.Sublist L ∧ Matches (owners ++ new) ls' (after sc) ∧
      (after sc).tail = sc.tail ∧ ∀ O, (owners ++ new) <+: O → O.Nodup → Q sc O a

namespace Builds

variable {L M : List Variable} {after behind : Scopes → Scopes}
  {Q : Scopes → List Variable → α → Prop} {R : Scopes → List Variable → β → Prop}

theorem pure {a : α} (h : ∀ sc O, Q sc O a) : Builds [] id Q (pure a : LowerM α) := by
  intro ls b ls' owners sc hx hm _
  cases hx
  exact ⟨[], .slnil, by rwa [List.append_nil], rfl, fun O _ _ => h sc O⟩

theorem fail (f : LoweringFault) (s : Span) : Builds L after Q (Lowering.fail f s : LowerM α) := by
  intro ls b ls' owners sc hx
  cases hx

/-- **Steps compose.** -/
theorem bind {P : α → Scopes → List Variable → β → Prop} {x : LowerM α} {k : α → LowerM β}
    {both : Scopes → Scopes} (hx : Builds L after Q x) (hk : ∀ a, Builds M behind (P a) (k a))
    (hboth : ∀ sc, both sc = behind (after sc))
    (hR : ∀ sc O a b, Q sc O a → P a (after sc) O b → R sc O b) :
    Builds (L ++ M) both R (x >>= k) := by
  intro ls b ls'' owners sc hrun hm hfresh
  change (x ls >>= fun p => k p.1 p.2) = .ok (b, ls'') at hrun
  rcases hxls : x ls with e | ⟨a, ls'⟩
  · rw [hxls] at hrun
    cases hrun
  · rw [hxls] at hrun
    rw [← List.append_assoc] at hfresh
    obtain ⟨new, hnew, hm', htail, hQ⟩ :=
      hx _ _ _ _ _ hxls hm (hfresh.sublist (List.sublist_append_left _ M))
    obtain ⟨new', hnew', hm'', htail', hP⟩ := hk a _ _ _ _ _ hrun hm'
      (hfresh.sublist ((hnew.append_left owners).append_right M))
    rw [hboth]
    refine ⟨new ++ new', hnew.append hnew', by rwa [← List.append_assoc], htail'.trans htail, ?_⟩
    intro O hO hnodup
    rw [← List.append_assoc] at hO
    exact hR sc O a b (hQ O ((List.prefix_append _ _).trans hO) hnodup) (hP O hO hnodup)

/-- A step may be said to declare more than it does. -/
theorem weaken {x : LowerM α} (hx : Builds L after Q x) (hL : L.Sublist M) :
    Builds M after Q x := by
  intro ls a ls' owners sc hrun hm hfresh
  obtain ⟨new, hnew, hrest⟩ := hx _ _ _ _ _ hrun hm (hfresh.sublist (hL.append_left owners))
  exact ⟨new, hnew.trans hL, hrest⟩

/-- A step, and what is made of its result without lowering anything. -/
theorem map {x : LowerM α} {k : α → LowerM β} (hx : Builds L after Q x)
    (hk : ∀ a, Builds [] id (fun _ _ b => ∀ sc O, Q sc O a → R sc O b) (k a)) :
    Builds L after R (x >>= k) := by
  have h := bind (R := R) hx hk (fun _ => rfl) fun sc O a b hQ hP => hP sc O hQ
  rwa [List.append_nil] at h

/-- A scope of its own leaves the scopes around it as they were. -/
theorem inScope {x : LowerM α} (hx : Builds L after Q x) :
    Builds L id (fun sc => Q sc.opened) (Lowering.inScope x) := by
  intro ls a ls' owners sc hrun hm hfresh
  change (x ls.enter >>= fun p => Except.ok (p.1, p.2.leave)) = .ok (a, ls') at hrun
  rcases hxls : x ls.enter with e | ⟨b, ls₁⟩
  · rw [hxls] at hrun
    cases hrun
  · rw [hxls] at hrun
    cases hrun
    obtain ⟨new, hnew, hm', htail, hQ⟩ := hx _ _ _ _ _ hxls hm.enter hfresh
    exact ⟨new, hnew, hm'.leave htail, rfl, hQ⟩

end Builds

end Source

end Kiln
