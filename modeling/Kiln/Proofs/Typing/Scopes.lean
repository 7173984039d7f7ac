import Kiln.Proofs.Lowering.Inversion
import Kiln.Proofs.Typing.Judgement
/-!
# Scopes and assigned slots

`Makes` says of a step of lowering how the slots of a frame grow, and which of them are assigned
when the code that it gives has run; `Makes.bind` puts steps together.

A variable that is in scope is one whose slot was assigned, as long as nothing that may not run to
its end adds to the scope around it. The branches of an `if` and the body of a loop have scopes of
their own. The operands of `and` and `or` have none: where one behind the first declares a variable,
the variable is in scope behind the form, although the operand may never have run. A tree is
*careful* if it has no such operand (`Tree.careful`). With a laxity that lets slots be read
unassigned every tree will do.
-/

namespace Kiln

/-! ## Trees that declare nothing around them -/

/-- Whether what the operands of a form declare is in scope behind the form, or it declares
something itself. -/
def Form.declares : Form → List Bool → Bool
  | .bind, _ => true
  | .sequence, _ => false
  | .branch, operands | .loop, operands => (operands.take 1).any id
  | _, operands => operands.any id

/-- Whether what a tree declares is in scope behind it, in the scope that it stands in. -/
def Tree.declares (t : Tree) : Bool :=
  t.fold (fun _ _ => false) fun items _ =>
    match items with
    | [] => false
    | (head, _) :: args =>
      match head.symbol?.bind Form.ofWord? with
      | some f => f.declares (args.map (·.2))
      | none => (args.map (·.2)).any id

/-- Whether no operand of `and` or `or` behind the first declares anything in the scope around the
form. -/
def Tree.careful (t : Tree) : Bool :=
  t.fold (fun _ _ => true) fun items _ =>
    items.all (·.2) &&
      match items with
      | [] => true
      | (head, _) :: args =>
        match head.symbol?.bind Form.ofWord? with
        | some .all | some .any => (args.drop 1).all (!·.1.declares)
        | _ => true

theorem Tree.declares_node (head : Tree) (args : List Tree) (s : Span) :
    (Tree.node (head :: args) s).declares =
      match head.symbol?.bind Form.ofWord? with
      | some f => f.declares (args.map Tree.declares)
      | none => (args.map Tree.declares).any id := by
  rw [Tree.declares, Tree.fold, Tree.foldAll_eq_map, List.map_cons]
  dsimp only
  rw [List.map_map]
  rfl

/-- The items of a careful tree are careful. -/
theorem Tree.careful_of_mem {items : List Tree} {s : Span} (h : (Tree.node items s).careful = true)
    {t : Tree} (ht : t ∈ items) : t.careful = true := by
  rw [Tree.careful, Tree.fold, Tree.foldAll_eq_map] at h
  exact List.all_eq_true.1 (Bool.and_eq_true_iff.1 h).1 (t, t.careful) (List.mem_map.2 ⟨t, ht, rfl⟩)

/-- The operands of `and` and `or` in a careful tree declare nothing, apart from the first. -/
theorem Tree.declares_of_careful {head : Tree} {args : List Tree} {s : Span}
    (h : (Tree.node (head :: args) s).careful = true) {f : Form}
    (hf : head.symbol?.bind Form.ofWord? = some f) (hchain : f = .all ∨ f = .any) :
    ∀ t ∈ args.tail, t.declares = false := by
  intro t ht
  rw [Tree.careful, Tree.fold, Tree.foldAll_eq_map, List.map_cons] at h
  have hlater := (Bool.and_eq_true_iff.1 h).2
  dsimp only at hlater
  rw [hf] at hlater
  have hall : (((args.map fun t => (t, t.careful)).drop 1).all fun p => !p.1.declares) = true := by
    rcases hchain with rfl | rfl <;> exact hlater
  rw [← List.map_drop, List.drop_one] at hall
  simpa using List.all_eq_true.1 hall (t, t.careful) (List.mem_map.2 ⟨t, ht, rfl⟩)

variable {α β : Type} {P : Interface}

/-! ## Steps of lowering -/

/-- The slots taken have these types, and each variable in scope owns one that was assigned. Where
slots may be read unassigned all of them count. -/
structure Locals.Typed (P : Interface) (T : List Ty) (A : Assigned) (ls : Locals) : Prop where
  slots : ls.slots = T.length
  known : ∀ scope ∈ ls.scopes, ∀ l ∈ scope, T[l.slot]? = some l.type ∧ l.slot ∈ A
  all : P.laxity.unset → A = Set.univ

theorem Locals.tail_declare (ls : Locals) (name : String) (t : Ty) :
    (ls.declare name t).scopes.tail = ls.scopes.tail := by
  obtain ⟨_ | ⟨scope, outer⟩, slots⟩ := ls <;> rfl

namespace Locals.Typed

variable {T T' : List Ty} {A B : Assigned} {ls : Locals}

theorem find? (h : ls.Typed P T A) {name : String} {l : Local} (hl : ls.find? name = some l) :
    T[l.slot]? = some l.type ∧ l.slot ∈ A := by
  obtain ⟨scope, hscope, hmem⟩ := List.mem_flatten.1 (List.mem_of_find?_eq_some hl)
  exact h.known scope hscope l hmem

theorem enter (h : ls.Typed P T A) : ls.enter.Typed P T A := by
  refine ⟨h.slots, fun scope hscope l hl => ?_, h.all⟩
  rcases List.mem_cons.1 hscope with rfl | hscope
  · cases hl
  · exact h.known scope hscope l hl

theorem leave (h : ls.Typed P T A) : ls.leave.Typed P T A :=
  ⟨h.slots, fun scope hscope => h.known scope (List.mem_of_mem_tail hscope), h.all⟩

/-- A variable that is declared owns the next slot, which its value was assigned to. -/
theorem declare (h : ls.Typed P T A) (name : String) (t : Ty) :
    (ls.declare name t).Typed P (T ++ [t]) (insert ls.slots A) := by
  have hold : ∀ scope ∈ ls.scopes, ∀ l ∈ scope,
      (T ++ [t])[l.slot]? = some l.type ∧ l.slot ∈ insert ls.slots A := fun scope hscope l hl => by
    obtain ⟨htype, hassigned⟩ := h.known scope hscope l hl
    refine ⟨?_, Set.mem_insert_of_mem _ hassigned⟩
    rwa [List.getElem?_append_left (List.getElem?_eq_some_iff.1 htype).1]
  have hnew : (T ++ [t])[ls.slots]? = some t := by rw [h.slots, List.getElem?_concat_length]
  have hlength : ls.slots + 1 = (T ++ [t]).length := by
    rw [h.slots, List.length_append, List.length_singleton]
  have hall : P.laxity.unset → insert ls.slots A = Set.univ := fun hunset => by
    rw [h.all hunset, Set.insert_eq_of_mem (Set.mem_univ _)]
  obtain ⟨scopes, slots⟩ := ls
  rcases scopes with _ | ⟨scope, outer⟩
  · exact ⟨hlength, fun _ hscope => (List.not_mem_nil hscope).elim, hall⟩
  · refine ⟨hlength, fun other hother l hl => ?_, hall⟩
    rcases List.mem_cons.1 hother with rfl | hother
    · rcases List.mem_cons.1 hl with rfl | hl
      · exact ⟨hnew, Set.mem_insert _ _⟩
      · exact hold scope List.mem_cons_self l hl
    · exact hold other (List.mem_cons_of_mem _ hother) l hl

/-- Scopes that did not change are typed by what was assigned before. -/
theorem of_scopes {ls' : Locals} (h : ls.Typed P T A) (h' : ls'.Typed P T' B) (hle : T <+: T')
    (hscopes : ls'.scopes = ls.scopes) : ls'.Typed P T' A := by
  refine ⟨h'.slots, fun scope hscope l hl => ?_, h.all⟩
  obtain ⟨htype, hassigned⟩ := h.known scope (hscopes ▸ hscope) l hl
  obtain ⟨rest, rfl⟩ := hle
  exact ⟨by rwa [List.getElem?_append_left (List.getElem?_eq_some_iff.1 htype).1], hassigned⟩

end Locals.Typed

/-- A step that lowers nothing: if it is not refused, what it gives has the property. -/
def Returns (S : α → Prop) (x : LowerM α) : Prop :=
  ∀ ls a ls', x ls = .ok (a, ls') → ls' = ls ∧ S a

/-- A step of lowering that is not refused. The slots taken grow, and more of them are assigned by
what it gives: with slots `T` of which those in `A` were assigned before it, and those in `B` behind
it, what it gives has the property `Q`, whatever slots will be taken later. The outer scopes stay as
they are, and the innermost one as well if the step is `quiet`. -/
def Makes (P : Interface) (quiet : Prop) (Q : List Ty → Assigned → α → Assigned → Prop)
    (x : LowerM α) : Prop :=
  ∀ ls a ls' T A, x ls = .ok (a, ls') → ls.Typed P T A → ∃ T' B, T <+: T' ∧ A ⊆ B ∧
    ls'.Typed P T' B ∧ ls'.scopes.tail = ls.scopes.tail ∧ (quiet → ls'.scopes = ls.scopes) ∧
      ∀ slots, T' <+: slots → Q slots A a B

namespace Returns

variable {S : α → Prop}

theorem pure {a : α} (h : S a) : Returns S (pure a : LowerM α) := by
  intro ls b ls' hx
  cases hx
  exact ⟨rfl, h⟩

theorem fail (f : LoweringFault) (s : Span) : Returns S (Lowering.fail f s : LowerM α) := by
  intro ls b ls' hx
  cases hx

theorem bind {R : β → Prop} {x : LowerM α} {k : α → LowerM β} (hx : Returns S x)
    (hk : ∀ a, S a → Returns R (k a)) : Returns R (x >>= k) := by
  intro ls b ls'' hrun
  change (x ls >>= fun p => k p.1 p.2) = .ok (b, ls'') at hrun
  obtain ⟨⟨a, ls'⟩, hstep, hrest⟩ := ok_of_bind hrun
  obtain ⟨rfl, ha⟩ := hx _ _ _ hstep
  exact hk a ha _ _ _ hrest

theorem lift {r : Except LoweringError α} (h : ∀ a, r = .ok a → S a) :
    Returns S (liftM r : LowerM α) := by
  rcases r with e | a
  · intro ls b ls' hx
    cases hx
  · exact pure (h a rfl)

end Returns

namespace Makes

variable {quiet : Prop} {Q : List Ty → Assigned → α → Assigned → Prop}
  {R : List Ty → Assigned → β → Assigned → Prop}

theorem of_returns {S : α → Prop} {x : LowerM α} (hx : Returns S x)
    (h : ∀ a, S a → ∀ slots A, Q slots A a A) : Makes P quiet Q x := by
  intro ls a ls' T A hrun hls
  obtain ⟨rfl, ha⟩ := hx ls a ls' hrun
  exact ⟨T, A, List.prefix_rfl, Set.Subset.rfl, hls, rfl,
    fun _ => rfl, fun slots _ => h a ha slots A⟩

theorem pure {a : α} (h : ∀ slots A, Q slots A a A) : Makes P quiet Q (pure a : LowerM α) :=
  of_returns (S := (· = a)) (.pure rfl) fun _ hb => hb ▸ h

theorem fail (f : LoweringFault) (s : Span) : Makes P quiet Q (Lowering.fail f s : LowerM α) := by
  intro ls a ls' T A hrun
  cases hrun

/-- **Steps compose.** -/
theorem bind {S : α → List Ty → Assigned → β → Assigned → Prop} {x : LowerM α} {k : α → LowerM β}
    (hx : Makes P quiet Q x) (hk : ∀ a, Makes P quiet (S a) (k a))
    (hR : ∀ slots A a B b D, Q slots A a B → S a slots B b D → R slots A b D) :
    Makes P quiet R (x >>= k) := by
  intro ls b ls'' T A hrun hls
  change (x ls >>= fun p => k p.1 p.2) = .ok (b, ls'') at hrun
  obtain ⟨⟨a, ls'⟩, hstep, hrun⟩ := ok_of_bind hrun
  obtain ⟨T', B, hT, hA, hls', htail, hquiet, hQ⟩ := hx _ _ _ _ _ hstep hls
  obtain ⟨T'', D, hT', hB, hls'', htail', hstill, hS⟩ := hk a _ _ _ _ _ hrun hls'
  refine ⟨T'', D, hT.trans hT', hA.trans hB, hls'', htail'.trans htail, ?_, fun slots hslots => ?_⟩
  · exact fun h => (hstill h).trans (hquiet h)
  · exact hR slots A a B b D (hQ slots (hT'.trans hslots)) (hS slots hslots)

theorem imp {Q' : List Ty → Assigned → α → Assigned → Prop} {x : LowerM α} (hx : Makes P quiet Q x)
    (h : ∀ slots A a B, Q slots A a B → Q' slots A a B) : Makes P quiet Q' x := by
  intro ls a ls' T A hrun hls
  obtain ⟨T', B, hT, hA, hls', htail, hquiet, hQ⟩ := hx _ _ _ _ _ hrun hls
  exact ⟨T', B, hT, hA, hls', htail, hquiet, fun slots hslots => h slots A a B (hQ slots hslots)⟩

/-- A step may be quiet more seldom than it is said to be. -/
theorem quieter {still : Prop} {x : LowerM α} (hx : Makes P quiet Q x) (h : still → quiet) :
    Makes P still Q x := by
  intro ls a ls' T A hrun hls
  obtain ⟨T', B, hT, hA, hls', htail, hquiet, hQ⟩ := hx _ _ _ _ _ hrun hls
  exact ⟨T', B, hT, hA, hls', htail, fun hstill => hquiet (h hstill), hQ⟩

/-- What is made of the result of a step without lowering anything. -/
theorem map {x : LowerM α} {k : α → LowerM β} (hx : Makes P quiet Q x)
    (hk : ∀ a, Returns (fun b => ∀ slots A B, Q slots A a B → R slots A b B) (k a)) :
    Makes P quiet R (x >>= k) := by
  refine hx.bind (S := fun a slots B b D => D = B ∧ ∀ A, Q slots A a B → R slots A b B)
    (fun a => of_returns (hk a) fun b hb slots B => ⟨rfl, fun A => hb slots A B⟩) ?_
  rintro slots A a B b D hQ ⟨rfl, hb⟩
  exact hb A hQ

/-- A step behind one that lowers nothing. -/
theorem after {S : α → Prop} {x : LowerM α} {k : α → LowerM β} (hx : Returns S x)
    (hk : ∀ a, S a → Makes P quiet R (k a)) : Makes P quiet R (x >>= k) := by
  intro ls b ls'' T A hrun
  change (x ls >>= fun p => k p.1 p.2) = .ok (b, ls'') at hrun
  obtain ⟨⟨a, ls'⟩, hstep, hrest⟩ := ok_of_bind hrun
  obtain ⟨rfl, ha⟩ := hx _ _ _ hstep
  exact hk a ha _ _ _ _ _ hrest

/-- A step behind something that may be refused. -/
theorem lift {r : Except LoweringError α} {k : α → LowerM β}
    (h : ∀ a, r = .ok a → Makes P quiet R (k a)) : Makes P quiet R (liftM r >>= k) :=
  after (.lift fun _ ha => ha) h

/-- A step that asks for the variables in scope. -/
theorem get {S : Locals → List Ty → Assigned → β → Assigned → Prop} {k : Locals → LowerM β}
    (hk : ∀ ls, Makes P quiet (S ls) (k ls))
    (hR : ∀ (ls : Locals) (T slots : List Ty) (A : Assigned) (b : β) (B : Assigned),
      ls.Typed P T A →
      T <+: slots → S ls slots A b B → R slots A b B) :
    Makes P quiet R (get >>= k) := by
  intro ls b ls' T A hrun hls
  obtain ⟨T', B, hT, hA, hls', htail, hquiet, hS⟩ := hk ls _ _ _ _ _ hrun hls
  refine ⟨T', B, hT, hA, hls', htail, hquiet, fun slots hslots => ?_⟩
  exact hR ls T slots A b B hls (hT.trans hslots) (hS slots hslots)

/-- **A step in a scope of its own is quiet.** -/
theorem inScope {x : LowerM α} (hx : Makes P quiet Q x) : Makes P True Q (Lowering.inScope x) := by
  intro ls a ls' T A hrun hls
  change (x ls.enter >>= fun p => Except.ok (p.1, p.2.leave)) = .ok (a, ls') at hrun
  obtain ⟨⟨b, ls₁⟩, hstep, hrun⟩ := ok_of_bind hrun
  cases hrun
  obtain ⟨T', B, hT, hA, hls₁, htail, -, hQ⟩ := hx _ _ _ _ _ hstep hls.enter
  have hscopes : ls₁.leave.scopes = ls.scopes := htail
  exact ⟨T', B, hT, hA, hls₁.leave, congrArg List.tail hscopes, fun _ => hscopes, hQ⟩

/-- **What a quiet step assigns may be forgotten**; and where slots may be read unassigned nothing
is forgotten, since all of them count. -/
theorem forget {x : LowerM α} (hx : Makes P quiet Q x) (hquiet : quiet ∨ P.laxity.unset) :
    Makes P quiet (fun slots A a B => B = A ∧ ∃ D, Q slots A a D) x := by
  intro ls a ls' T A hrun hls
  obtain ⟨T', B, hT, hA, hls', htail, hstill, hQ⟩ := hx _ _ _ _ _ hrun hls
  rcases hquiet with h | h
  · exact ⟨T', A, hT, Set.Subset.rfl, hls.of_scopes hls' hT (hstill h), htail, hstill,
      fun slots hslots => ⟨rfl, B, hQ slots hslots⟩⟩
  · have hB : B = A := by rw [hls.all h, hls'.all h]
    exact ⟨T', B, hT, hA, hls', htail, hstill, fun slots hslots => ⟨hB, B, hQ slots hslots⟩⟩

end Makes

end Kiln
