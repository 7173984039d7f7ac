import Kiln.Proofs.Lowering.Ordering
import Kiln.Proofs.Source.Preservation
/-!
# Definitions in another order

The definitions of a unit may come in any order, as long as its globals keep theirs. What the passes
over a unit come to is said of all its definitions at once: which they are, and that no two have one
name (`Outline.ofUnit_ok_iff`, `foldlM_added`). So each pass carries over to definitions in another
order, and the unit comes to the same structs, globals and functions, of which the calls go to
functions of the same names (`lowerUnit_reordered`).
-/

namespace Kiln

variable {P : Span → Span → Prop}

/-! ## Definitions in another order -/

/-- The tree is a form of the word. -/
def Tree.opens (t : Tree) (word : String) : Bool := t.head? = some word

/-- The definitions match in some order, and those of globals in their own. -/
structure Rearranges (P : Span → Span → Prop) (ts ts' : List Tree) : Prop where
  all : Rearranged (Tree.Matches P) ts ts'
  globals :
    List.Forall₂ (Tree.Matches P) (ts.filter (·.opens "global")) (ts'.filter (·.opens "global"))

theorem Tree.Matches.opens {t t' : Tree} (h : t.Matches P t') (word : String) :
    t'.opens word = t.opens word := by
  rw [Tree.opens, Tree.opens, h.head?]

theorem Rearranges.flip {ts ts' : List Tree} (h : Rearranges P ts ts') :
    Rearranges (flip P) ts' ts :=
  ⟨h.all.flip.imp fun _ _ ht => Tree.Matches.flip ht,
    List.Forall₂.flip (h.globals.imp fun _ _ ht => ht.flip)⟩

/-! ## Outlines -/

/-- A relation of lists that end in one more element each. -/
theorem forall₂_snoc_iff {α β : Type} {S : α → β → Prop} {as : List α} {a : α} {bs : List β} :
    List.Forall₂ S (as ++ [a]) bs ↔
      ∃ before b, List.Forall₂ S as before ∧ S a b ∧ bs = before ++ [b] := by
  constructor
  · intro h
    induction as generalizing bs with
    | nil =>
      obtain ⟨b, rest, hab, hrest, rfl⟩ := List.forall₂_cons_left_iff.1 h
      cases hrest
      exact ⟨[], b, .nil, hab, rfl⟩
    | cons c as ih =>
      obtain ⟨d, rest, hcd, hrest, rfl⟩ := List.forall₂_cons_left_iff.1 h
      obtain ⟨before, b, hbefore, hab, rfl⟩ := ih hrest
      exact ⟨d :: before, b, .cons hcd hbefore, hab, rfl⟩
  · rintro ⟨before, b, hbefore, hab, rfl⟩
    exact List.rel_append hbefore (.cons hab .nil)

theorem nodup_snoc_iff {names : List String} {name : String} :
    (names ++ [name]).Nodup ↔ names.Nodup ∧ name ∉ names := by
  rw [List.nodup_append_comm]
  exact List.nodup_cons.trans and_comm

/-- The tree defines the struct. -/
def DefinesStruct (t : Tree) (s : StructForm) : Prop :=
  ∃ nameTree, t.form? "struct" = some (nameTree :: s.fields) ∧
    declaredName nameTree .struct = .ok s.name ∧
    s.span = t.span

/-- The outline is that of the definitions. -/
structure Outline.Sorts (o : Outline) (ts : List Tree) : Prop where
  known : ∀ t ∈ ts, t.head? = some "struct" ∨ t.head? = some "fun" ∨ t.head? = some "global"
  structs : List.Forall₂ DefinesStruct (ts.filter (·.opens "struct")) o.structs
  nodup : (o.structs.map (·.name)).Nodup
  functions : o.functions = ts.filter (·.opens "fun")
  globals : o.globals = ts.filter (·.opens "global")

namespace Outline

theorem any_name_iff {forms : List StructForm} {name : String} :
    forms.any (·.name == name) = true ↔ name ∈ forms.map (·.name) := by simp

/-- What is added to an outline by a definition. -/
theorem add_ok_iff {o o' : Outline} {t : Tree} : o.add t = .ok o' ↔
    (∃ s, DefinesStruct t s ∧ s.name ∉ o.structs.map (·.name) ∧
      o' = { o with structs := o.structs ++ [s] }) ∨
      (t.head? = some "fun" ∧ o' = { o with functions := o.functions ++ [t] }) ∨
        t.head? = some "global" ∧ o' = { o with globals := o.globals ++ [t] } := by
  constructor
  · intro h
    unfold add at h
    split at h
    · cases h
    · rename_i nameTree fields hform
      obtain ⟨name, hname, h⟩ := ok_of_bind h
      split at h
      · cases h
      · rename_i hnew
        cases h
        exact .inl ⟨⟨name, fields, t.span⟩, ⟨nameTree, hform, hname, rfl⟩,
          fun hmem => hnew (any_name_iff.2 hmem), rfl⟩
    · rename_i hhead
      cases h
      exact .inr (.inl ⟨hhead, rfl⟩)
    · rename_i hhead
      cases h
      exact .inr (.inr ⟨hhead, rfl⟩)
    · cases h
  · rintro (⟨⟨name, fields, span⟩, ⟨nameTree, hform, hname, hspan⟩, hnew, rfl⟩ | ⟨hhead, rfl⟩
      | ⟨hhead, rfl⟩)
    · cases hspan
      unfold add
      rw [hform]
      show (declaredName nameTree .struct >>= _) = _
      rw [hname]
      show (if o.structs.any (·.name == name) then _ else _) = _
      rw [if_neg fun hmem => hnew (any_name_iff.1 hmem)]
      rfl
    · unfold add
      rw [form?_eq_none hhead (by decide), hhead]
      rfl
    · unfold add
      rw [form?_eq_none hhead (by decide), hhead]
      rfl

/-- The forms of a word, of which the last definition may be one. -/
theorem filter_opens_snoc {ts : List Tree} {t : Tree} {word : String} (h : t.head? = some word)
    (other : String) :
    (ts ++ [t]).filter (·.opens other) =
      if word = other then ts.filter (·.opens other) ++ [t] else ts.filter (·.opens other) := by
  have hopens : t.opens other = decide (word = other) :=
    decide_eq_decide.2 (by rw [h, Option.some.injEq])
  rw [List.filter_append, List.filter_singleton, hopens]
  split
  · rw [decide_eq_true ‹_›]
    rfl
  · rw [decide_eq_false ‹_›]
    exact List.append_nil _

/-- One definition more is sorted behind those before it. -/
theorem sorts_snoc_iff {o' : Outline} {ts : List Tree} {t : Tree} :
    o'.Sorts (ts ++ [t]) ↔ ∃ o : Outline, o.Sorts ts ∧ o.add t = .ok o' := by
  have hmem : ∀ {u : Tree}, u ∈ ts → u ∈ ts ++ [t] := List.mem_append_left _
  constructor
  · rintro ⟨hknown, hstructs, hnodup, hfunctions, hglobals⟩
    have hearlier := fun u (hu : u ∈ ts) => hknown u (hmem hu)
    rcases hknown t (List.mem_append_right _ (List.mem_singleton.2 rfl))
      with hhead | hhead | hhead <;>
      simp only [filter_opens_snoc hhead, String.reduceEq, if_true, if_false]
        at hstructs hfunctions hglobals
    · obtain ⟨before, s, hbefore, hs, heq⟩ := forall₂_snoc_iff.1 hstructs
      rw [heq, List.map_append] at hnodup
      obtain ⟨hnodup, hnew⟩ := nodup_snoc_iff.1 hnodup
      exact ⟨{ o' with structs := before }, ⟨hearlier, hbefore, hnodup, hfunctions, hglobals⟩,
        add_ok_iff.2 (.inl ⟨s, hs, hnew, by rw [← heq]⟩)⟩
    · exact ⟨{ o' with functions := ts.filter (·.opens "fun") },
        ⟨hearlier, hstructs, hnodup, rfl, hglobals⟩,
        add_ok_iff.2 (.inr (.inl ⟨hhead, by rw [← hfunctions]⟩))⟩
    · exact ⟨{ o' with globals := ts.filter (·.opens "global") },
        ⟨hearlier, hstructs, hnodup, hfunctions, rfl⟩,
        add_ok_iff.2 (.inr (.inr ⟨hhead, by rw [← hglobals]⟩))⟩
  · rintro ⟨o, ⟨hknown, hstructs, hnodup, hfunctions, hglobals⟩, hadd⟩
    have hall : ∀ {word : String}, t.head? = some word →
        (word = "struct" ∨ word = "fun" ∨ word = "global") → ∀ u ∈ ts ++ [t],
          u.head? = some "struct" ∨ u.head? = some "fun" ∨ u.head? = some "global" := by
      rintro word hhead hword u hu
      rcases List.mem_append.1 hu with hu | hu
      · exact hknown u hu
      · rw [List.mem_singleton.1 hu, hhead, Option.some.injEq, Option.some.injEq, Option.some.injEq]
        exact hword
    rcases add_ok_iff.1 hadd with ⟨s, hs, hnew, rfl⟩ | ⟨hhead, rfl⟩ | ⟨hhead, rfl⟩
    · have hhead : t.head? = some "struct" := hs.elim fun _ h => head?_of_form? h.1
      refine ⟨hall hhead (.inl rfl), ?_, ?_, ?_, ?_⟩ <;>
        simp only [filter_opens_snoc hhead, String.reduceEq, if_true, if_false]
      · exact forall₂_snoc_iff.2 ⟨_, s, hstructs, hs, rfl⟩
      · rw [List.map_append]
        exact nodup_snoc_iff.2 ⟨hnodup, hnew⟩
      · exact hfunctions
      · exact hglobals
    · refine ⟨hall hhead (.inr (.inl rfl)), ?_, hnodup, ?_, ?_⟩ <;>
        simp only [filter_opens_snoc hhead, String.reduceEq, if_true, if_false]
      · exact hstructs
      · rw [hfunctions]
      · exact hglobals
    · refine ⟨hall hhead (.inr (.inr rfl)), ?_, hnodup, ?_, ?_⟩ <;>
        simp only [filter_opens_snoc hhead, String.reduceEq, if_true, if_false]
      · exact hstructs
      · exact hfunctions
      · rw [hglobals]

/-- **The outline of a unit is that of its definitions.** -/
theorem ofUnit_ok_iff {root : Tree} {o : Outline} :
    ofUnit root = .ok o ↔ o.Sorts (definitions root) := by
  unfold ofUnit
  generalize definitions root = ts
  induction ts using List.reverseRecOn generalizing o with
  | nil =>
    constructor
    · rintro ⟨⟩
      exact ⟨fun t ht => absurd ht List.not_mem_nil, .nil, List.nodup_nil, rfl, rfl⟩
    · intro h
      obtain ⟨structs, functions, globals⟩ := o
      obtain ⟨-, ⟨⟩, -, ⟨⟩, ⟨⟩⟩ := h
      rfl
  | append_singleton ts t ih =>
    rw [List.foldlM_append, sorts_snoc_iff]
    constructor
    · intro h
      obtain ⟨before, hbefore, h⟩ := ok_of_bind h
      obtain ⟨after, hadd, h⟩ := ok_of_bind h
      cases h
      exact ⟨before, ih.1 hbefore, hadd⟩
    · rintro ⟨before, hbefore, hadd⟩
      rw [ih.2 hbefore]
      show (before.add t >>= pure) = _
      rw [hadd]
      rfl

end Outline

/-- Outlines of definitions in another order. -/
structure Outline.Reordered (P : Span → Span → Prop) (o o' : Outline) : Prop where
  structs : Rearranged (StructForm.Matches P) o.structs o'.structs
  functions : Rearranged (Tree.Matches P) o.functions o'.functions
  globals : List.Forall₂ (Tree.Matches P) o.globals o'.globals

theorem DefinesStruct.carry {t t' : Tree} {s : StructForm} (h : DefinesStruct t s)
    (ht : t.Matches P t') :
    ∃ s', DefinesStruct t' s' ∧ s.Matches P s' := by
  obtain ⟨nameTree, hform, hname, hspan⟩ := h
  have hmatch := ht.form? "struct"
  rw [hform] at hmatch
  generalize hform' : t'.form? "struct" = found' at hmatch
  cases hmatch with
  | some hitems =>
    obtain ⟨nameTree', fields', hn, hfields, rfl⟩ := List.forall₂_cons_left_iff.1 hitems
    obtain ⟨_, hname', rfl⟩ := (declaredName_upheld hn .struct).ok hname
    exact ⟨⟨s.name, fields', t'.span⟩, ⟨nameTree', hform', hname', rfl⟩, rfl, hfields,
      hspan ▸ ht.span⟩

/-- **Definitions in another order have an outline as well**, which is that in another order. -/
theorem Outline.Sorts.carry {o : Outline} {ts ts' : List Tree} (h : o.Sorts ts)
    (hts : Rearranges P ts ts') :
    ∃ o' : Outline, o'.Sorts ts' ∧ o.Reordered P o' := by
  have hopens :
      ∀ word, Rearranged (Tree.Matches P) (ts.filter (·.opens word)) (ts'.filter (·.opens word)) :=
    fun word => hts.all.filter fun _ _ ht => ht.opens word
  obtain ⟨structs, hstructs, hrearranged⟩ :=
    (hopens "struct").carry h.structs fun _ _ _ ht hs => hs.carry ht
  refine ⟨⟨structs, ts'.filter (·.opens "fun"), ts'.filter (·.opens "global")⟩,
    ⟨fun t' ht' => ?_, hstructs, ?_, rfl, rfl⟩, hrearranged, ?_, ?_⟩
  · obtain ⟨t, ht, hmatch⟩ := hts.all.exists_left ht'
    rw [hmatch.head?]
    exact h.known t ht
  · exact (hrearranged.map_perm fun _ _ hs => hs.name).nodup_iff.1 h.nodup
  · rw [h.functions]
    exact hopens "fun"
  · rw [h.globals]
    exact hts.globals

/-! ## Functions -/

/-- Steps that each add what an element stands for, under a name of its own, add what all of them
stand for. -/
theorem foldlM_added {α β ε : Type} {f : List β → α → Except ε (List β)} {S : α → β → Prop}
    {key : β → String} (hf : ∀ before a after, f before a = .ok after ↔
      ∃ b, S a b ∧ key b ∉ before.map key ∧ after = before ++ [b]) {as : List α} {bs : List β} :
    as.foldlM f [] = .ok bs ↔ List.Forall₂ S as bs ∧ (bs.map key).Nodup := by
  induction as using List.reverseRecOn generalizing bs with
  | nil =>
    constructor
    · rintro ⟨⟩
      exact ⟨.nil, List.nodup_nil⟩
    · rintro ⟨⟨⟩, -⟩
      rfl
  | append_singleton as a ih =>
    rw [List.foldlM_append, forall₂_snoc_iff]
    constructor
    · intro h
      obtain ⟨before, hbefore, h⟩ := ok_of_bind h
      obtain ⟨after, hstep, h⟩ := ok_of_bind h
      cases h
      obtain ⟨b, hab, hnew, rfl⟩ := (hf _ _ _).1 hstep
      obtain ⟨hall, hnodup⟩ := ih.1 hbefore
      refine ⟨⟨before, b, hall, hab, rfl⟩, ?_⟩
      rw [List.map_append]
      exact nodup_snoc_iff.2 ⟨hnodup, hnew⟩
    · rintro ⟨⟨before, b, hall, hab, rfl⟩, hnodup⟩
      rw [List.map_append] at hnodup
      obtain ⟨hnodup, hnew⟩ := nodup_snoc_iff.1 hnodup
      rw [ih.2 ⟨hall, hnodup⟩]
      show (f before a >>= pure) = _
      rw [(hf _ _ _).2 ⟨b, hab, hnew, rfl⟩]
      rfl

namespace Names

variable {names names' : Names}

/-- The tree defines the function. -/
structure DefinesFunction (names : Names) (t : Tree) (f : FunctionForm) : Prop where
  shape : ∃ nameTree paramsTree resultTree paramTrees,
    t.form? "fun" = some (nameTree :: paramsTree :: resultTree :: f.body) ∧
      declaredName nameTree .function = .ok f.signature.name ∧ paramsTree.items? = some paramTrees ∧
        paramTrees.foldlM names.param [] = .ok f.signature.params ∧
          names.resolveType resultTree = .ok f.signature.result
  span : f.span = t.span

/-- What is added to functions by a definition. -/
theorem function_ok_iff {before after : List FunctionForm} {t : Tree} :
    names.function before t = .ok after ↔
    ∃ f, names.DefinesFunction t f ∧ f.signature.name ∉ before.map (·.signature.name) ∧
      after = before ++ [f] := by
  have hany :
      ∀ name, before.any (·.signature.name == name) = true ↔
        name ∈ before.map (·.signature.name) := by simp
  constructor
  · intro h
    unfold function at h
    split at h
    · rename_i nameTree paramsTree resultTree body hform
      obtain ⟨name, hname, h⟩ := ok_of_bind h
      split at h
      · cases h
      · rename_i hnew
        split at h
        · rename_i paramTrees hitems
          obtain ⟨params, hparams, h⟩ := ok_of_bind h
          obtain ⟨result, hresult, h⟩ := ok_of_bind h
          cases h
          exact ⟨⟨⟨name, params, result⟩, body, t.span⟩,
            ⟨⟨nameTree, paramsTree, resultTree, paramTrees, hform, hname, hitems, hparams, hresult⟩,
              rfl⟩,
            fun hmem => hnew ((hany name).2 hmem), rfl⟩
        · cases h
    · cases h
  · rintro ⟨⟨⟨name, params, result⟩, body, span⟩,
      ⟨⟨nameTree, paramsTree, resultTree, paramTrees, hform, hname, hitems, hparams, hresult⟩,
        hspan⟩, hnew, rfl⟩
    cases hspan
    unfold function
    rw [hform]
    show (declaredName nameTree .function >>= _) = _
    rw [hname]
    show (if before.any (·.signature.name == name) then _ else _) = _
    rw [if_neg fun hmem => hnew ((hany name).1 hmem), hitems]
    show (paramTrees.foldlM names.param [] >>= _) = _
    rw [hparams]
    show (names.resolveType resultTree >>= _) = _
    rw [hresult]
    rfl

theorem DefinesFunction.carry
    (htype : ∀ {name : String} {t : Ty}, names.type? name = some t → names'.type? name = some t)
    {t t' : Tree} {f : FunctionForm} (h : names.DefinesFunction t f) (ht : t.Matches P t') :
    ∃ f', names'.DefinesFunction t' f' ∧ f.Matches P f' := by
  have hfirst : names.function [] t = .ok [f] := function_ok_iff.2 ⟨f, h, List.not_mem_nil, rfl⟩
  obtain ⟨after, hfirst', hmatch⟩ := (function_upheld htype .nil ht).ok hfirst
  obtain ⟨f', hf', -, rfl⟩ := function_ok_iff.1 hfirst'
  exact ⟨f', hf', (List.forall₂_cons.1 hmatch).1⟩

/-- **The functions of a unit are accepted in every order or in none.** -/
theorem functions_rearranged
    (htype : ∀ {name : String} {t : Ty}, names.type? name = some t → names'.type? name = some t)
    {ts ts' : List Tree} (hts : Rearranged (Tree.Matches P) ts ts') {forms : List FunctionForm}
    (h : ts.foldlM names.function [] = .ok forms) :
    (forms.map (·.signature.name)).Nodup ∧ ∃ forms', ts'.foldlM names'.function [] = .ok forms' ∧
      Rearranged (FunctionForm.Matches P) forms forms' := by
  obtain ⟨hall, hnodup⟩ := (foldlM_added (f := names.function) fun _ _ _ => function_ok_iff).1 h
  obtain ⟨forms', hall', hforms⟩ := hts.carry hall fun _ _ _ ht hf => hf.carry htype ht
  refine ⟨hnodup, forms',
    (foldlM_added (f := names'.function) fun _ _ _ => function_ok_iff).2 ⟨hall', ?_⟩, hforms⟩
  exact (hforms.map_perm fun _ _ hf => by rw [hf.signature]).nodup_iff.1 hnodup

end Names

/-! ## Bodies -/

/-- Functions of the module `home` that have one name, or one function of another module. -/
inductive FunctionHandle.Renamed (home : ModuleId) (owns owns' : List String) :
    FunctionHandle → FunctionHandle → Prop
  | own {i j : Nat} {name : String} : owns[i]? = some name → owns'[j]? = some name →
      Renamed home owns owns' ⟨home, i⟩ ⟨home, j⟩
  | other {handle : FunctionHandle} : handle.home ≠ home → Renamed home owns owns' handle handle

/-- The calls go to functions of the unit's own module that have one name, or to one function of
another module. -/
abbrev Callee.Renamed (home : ModuleId) (owns owns' : List String) : Callee → Callee → Prop :=
  Callee.Via (FunctionHandle.Renamed home owns owns') home

/-- The places at which a function is found in signatures that come in another order. -/
theorem findIdx?_perm {sigs sigs' : List Signature} (hperm : sigs.Perm sigs')
    (hnodup : (sigs.map (·.name)).Nodup) {name : String} {i : Nat} {sig : Signature}
    (hi : sigs.findIdx? (·.name = name) = some i) (hsig : sigs[i]? = some sig) :
    sig.name = name ∧ ∃ j, sigs'.findIdx? (·.name = name) = some j ∧ sigs'[j]? = some sig := by
  obtain ⟨hlt, hat, -⟩ := List.findIdx?_eq_some_iff_getElem.1 hi
  obtain rfl : sigs[i] = sig := Option.some.inj ((List.getElem?_eq_getElem hlt).symm.trans hsig)
  have hname : sigs[i].name = name := of_decide_eq_true hat
  have hmem : sigs[i] ∈ sigs' := hperm.subset (List.getElem_mem hlt)
  refine ⟨hname, ?_⟩
  cases hj : sigs'.findIdx? (·.name = name) with
  | none => exact absurd hname (of_decide_eq_false (List.findIdx?_eq_none_iff.1 hj _ hmem))
  | some j =>
    obtain ⟨hlt', hat', -⟩ := List.findIdx?_eq_some_iff_getElem.1 hj
    have hname' : sigs'[j].name = name := of_decide_eq_true hat'
    have hsame : sigs'[j] = sigs[i] :=
      List.inj_on_of_nodup_map ((hperm.map (·.name)).nodup_iff.1 hnodup)
        (List.getElem_mem hlt') hmem (hname'.trans hname.symm)
    exact ⟨j, rfl, (List.getElem?_eq_getElem hlt').trans (congrArg some hsame)⟩

/-- **A name means the same function wherever that stands** among those of the unit. -/
theorem Names.function?_rearranged {names names' : Names} (hdeps' : names'.deps = names.deps)
    (hperm : names.signatures.Perm names'.signatures)
    (hnodup : (names.signatures.map (·.name)).Nodup)
    (hdeps : ∀ m ∈ names.deps ++ [Module.base], m.id ≠ names.home) {name : String} {callee : Callee}
    {params : List Param} {result : Ty} (h : names.function? name = some (callee, params, result)) :
    ∃ callee', names'.function? name = some (callee', params, result) ∧
      Callee.Renamed names.home (names.signatures.map (·.name))
        (names'.signatures.map (·.name)) callee callee' := by
  unfold Names.function? at h ⊢
  split at h
  · rename_i i hi
    obtain ⟨sig, hsig, heq⟩ := Option.bind_eq_some_iff.1 h
    cases heq
    obtain ⟨rfl, j, hj, hsig'⟩ := findIdx?_perm hperm hnodup hi hsig
    rw [hj]
    have hown : (names.signatures.map (·.name))[i]? = some sig.name := by
      rw [List.getElem?_map, hsig, Option.map_some]
    exact ⟨.own j, Option.bind_eq_some_iff.2 ⟨sig, hsig', rfl⟩,
      FunctionHandle.Renamed.own hown (by rw [List.getElem?_map, hsig', Option.map_some])⟩
  · rename_i hnone
    have hnone' : names'.signatures.findIdx? (·.name = name) = none :=
      List.findIdx?_eq_none_iff.2 fun sig hsig =>
        List.findIdx?_eq_none_iff.1 hnone sig (hperm.symm.subset hsig)
    rw [hnone', hdeps']
    refine ⟨callee, h, ?_⟩
    obtain ⟨m, hm, hfound⟩ := List.exists_of_findSome?_eq_some h
    obtain ⟨i, -, hrest⟩ := Option.bind_eq_some_iff.1 hfound
    obtain ⟨_, -, heq⟩ := Option.bind_eq_some_iff.1 hrest
    cases heq
    exact FunctionHandle.Renamed.other (hdeps m hm)

/-! ## Units -/

/-- What two units come to that have the same definitions in another order. -/
structure LoweredUnit.Reordered (P : Span → Span → Prop) (u u' : LoweredUnit) : Prop where
  id : u'.module.id = u.module.id
  deps : u'.module.deps = u.module.deps
  structs : u.module.structs.Perm u'.module.structs
  globals : u'.module.globals = u.module.globals
  layouts : ∀ name, u'.module.layout? name = u.module.layout? name
  nodup : (u.module.functions.map (·.name)).Nodup
  functions :
    Rearranged (Function.Like
      (Callee.Renamed u.module.id (u.module.functions.map (·.name))
        (u'.module.functions.map (·.name)))) u.module.functions u'.module.functions
  initialisers :
    List.Forall₂ (Initialiser.Like P
      (Callee.Renamed u.module.id (u.module.functions.map (·.name))
        (u'.module.functions.map (·.name)))) u.initialisers u'.initialisers

/-- The names of a unit of which nothing but the names of its structs is known. -/
def Outline.names (o : Outline) (lib : Library) (deps : List Module) : Names :=
  ⟨lib.nextId, deps, lib.layouts, o.structs.map (·.name), [], []⟩

/-- The names of a unit of which functions and globals are known as well. -/
def Names.withDefinitions (names : Names) (forms : List FunctionForm) (globals : List GlobalForm) :
    Names :=
  { names with signatures := forms.map (·.signature), globals := globals.map (·.global) }

/-- Steps on each of some elements go through together. -/
theorem mapM_of_forall₂ {α β ε : Type} {f : α → Except ε β} {as : List α} {bs : List β}
    (h : List.Forall₂ (fun a b => f a = .ok b) as bs) : as.mapM f = .ok bs := by
  induction h with
  | nil => rfl
  | cons hab _ ih =>
    rw [List.mapM_cons, hab]
    show (List.mapM f _ >>= _) = _
    rw [ih]
    rfl

/-- The functions of a unit go by the names that they are declared under. -/
theorem names_of_lowerFunction {names : Names} {forms : List FunctionForm}
    {functions : List Function}
    (h : List.Forall₂ (fun f g => names.lowerFunction f = .ok g) forms functions) :
    functions.map (·.name) = (forms.map (·.signature)).map (·.name) := by
  rw [List.map_map]
  exact map_eq_of_forall₂ h
    fun _ _ hfg => congrArg Signature.name (Source.lowerFunction_signature hfg)

section Lower

variable {lib : Library} {deps : List Module}

/-- Outlines of the same structs have names that mean the same types. -/
theorem Outline.Reordered.sameTypes {o o' : Outline} (h : o.Reordered P o') :
    (o.names lib deps).SameTypes (o'.names lib deps) := by
  have hmem : ∀ name, name ∈ o.structs.map (·.name) ↔ name ∈ o'.structs.map (·.name) :=
    fun name => (h.structs.map_perm fun _ _ hs => hs.name).mem_iff
  have hcontains :
      ∀ name, (o'.structs.map (·.name)).contains name = (o.structs.map (·.name)).contains name :=
    fun name => Bool.eq_iff_iff.2 (by rw [List.contains_iff_mem, List.contains_iff_mem, hmem])
  refine ⟨rfl, rfl, fun {name t} ht => ?_⟩
  unfold Names.type? Outline.names at ht ⊢
  dsimp only at ht ⊢
  rw [hcontains]
  exact ht

/-- Structs of one module are laid out the same in every order. -/
theorem layouts_withStructs_perm {names names' : Names} {structs structs' : List StructDef}
    (hnames : names.SameTypes names') (hnodup : (structs.map (·.name)).Nodup)
    (hperm : structs.Perm structs') :
    (names'.withStructs structs').layouts = (names.withStructs structs).layouts := by
  rw [Names.withStructs, Names.withStructs, hnames.home, hnames.layouts, hperm.length_eq,
    Layouts.mk.injEq]
  refine ⟨funext fun ref => ?_, rfl⟩
  rw [find?_perm hnodup hperm]

/-- Names of the same types, functions and globals serve for each other. -/
theorem serve_withDefinitions {names names' : Names} {forms forms' : List FunctionForm}
    {globals globals' : List GlobalForm} (htypes : names.SameTypes names')
    (hdeps' : names'.deps = names.deps)
    (hdeps : ∀ m ∈ names.deps ++ [Module.base], m.id ≠ names.home)
    (hforms : Rearranged (FunctionForm.Matches P) forms forms')
    (hnodup : (forms.map (·.signature.name)).Nodup)
    (hglobals : List.Forall₂ (GlobalForm.Matches P) globals globals') :
    Names.Serve (Callee.Renamed names.home ((forms.map (·.signature)).map (·.name))
      ((forms'.map (·.signature)).map (·.name))) (names.withDefinitions forms globals)
        (names'.withDefinitions forms' globals') := by
  have hsame : globals'.map (·.global) = globals.map (·.global) :=
    map_eq_of_forall₂ hglobals fun _ _ hg => hg.global
  refine ⟨htypes.layouts, htypes.type,
    fun name => ?_, fun {name g} hg => ?_, fun {name callee params result} hf => ?_⟩
  · rw [Names.ownGlobal?, Names.ownGlobal?, Names.withDefinitions, Names.withDefinitions]
    dsimp only
    rw [hsame]
  · rw [Names.foreignGlobal?, Names.withDefinitions] at hg ⊢
    dsimp only at hg ⊢
    rwa [hdeps']
  · have hperm : (forms.map (·.signature)).Perm (forms'.map (·.signature)) :=
      hforms.map_perm fun _ _ hf => hf.signature
    have hsame : (names'.withDefinitions forms' globals').deps =
        (names.withDefinitions forms globals).deps := hdeps'
    refine Names.function?_rearranged hsame hperm ?_ hdeps hf
    rwa [Names.withDefinitions, List.map_map]

variable {root root' : Tree}

/-- The passes over a unit that are made one by one make up the lowering of the unit. -/
theorem lowerUnit_of_passes {o : Outline} {structs : List StructDef} {forms : List FunctionForm}
    {globals : List GlobalForm} {functions : List Function} {initialisers : List Initialiser}
    (ho : Outline.ofUnit root = .ok o)
    (hstructs : layOutAll (o.names lib deps) o.structs = .ok structs)
    (hforms : o.functions.foldlM ((o.names lib deps).withStructs structs).function [] = .ok forms)
    (hglobals : o.globals.foldlM ((o.names lib deps).withStructs structs).global [] = .ok globals)
    (hfunctions : List.Forall₂ (fun f g =>
      (((o.names lib deps).withStructs structs).withDefinitions forms globals).lowerFunction f =
        .ok g) forms functions)
    (hinitialisers : List.Forall₂ (fun g i =>
      (((o.names lib deps).withStructs structs).withDefinitions forms globals).lowerGlobal g =
        .ok i) globals initialisers)
    (name : String) :
    lowerUnit lib name deps root =
      .ok ⟨⟨lib.nextId, name, deps.map (·.id), functions, structs, globals.map (·.global)⟩,
        initialisers⟩ := by
  unfold lowerUnit
  rw [ho]
  show (layOutAll (o.names lib deps) o.structs >>= _) = _
  rw [hstructs]
  show (o.functions.foldlM ((o.names lib deps).withStructs structs).function [] >>= _) = _
  rw [hforms]
  show (o.globals.foldlM ((o.names lib deps).withStructs structs).global [] >>= _) = _
  rw [hglobals]
  show (forms.mapM
    (((o.names lib deps).withStructs structs).withDefinitions forms globals).lowerFunction >>= _) =
    _
  rw [mapM_of_forall₂ hfunctions]
  show (globals.mapM
    (((o.names lib deps).withStructs structs).withDefinitions forms globals).lowerGlobal >>= _) = _
  rw [mapM_of_forall₂ hinitialisers]
  rfl

/-- **Definitions in another order are lowered to the same.** -/
theorem lowerUnit_reordered (hdeps : ∀ m ∈ deps ++ [Module.base], m.id ≠ lib.nextId)
    (hroot : Rearranges P (definitions root) (definitions root')) {name : String} {u : LoweredUnit}
    (h : lowerUnit lib name deps root = .ok u) (name' : String) :
    ∃ u', lowerUnit lib name' deps root' = .ok u' ∧ u.Reordered P u' := by
  obtain ⟨o, ho, h⟩ := ok_of_bind h
  obtain ⟨structs, hstructs, h⟩ := ok_of_bind h
  obtain ⟨forms, hforms, h⟩ := ok_of_bind h
  obtain ⟨globals, hglobals, h⟩ := ok_of_bind h
  obtain ⟨functions, hfunctions, h⟩ := ok_of_bind h
  obtain ⟨initialisers, hinitialisers, h⟩ := ok_of_bind h
  cases h
  have hfunctions := forall₂_of_mapM hfunctions
  have hsorts := Outline.ofUnit_ok_iff.1 ho
  obtain ⟨o', hsorts', ho'⟩ := hsorts.carry hroot
  have hback : o'.Reordered (flip P) o :=
    ⟨ho'.structs.flip.imp fun _ _ hs => StructForm.Matches.flip hs,
      ho'.functions.flip.imp fun _ _ ht => Tree.Matches.flip ht,
      List.Forall₂.flip (ho'.globals.imp fun _ _ ht => ht.flip)⟩
  have hplain : (o.names lib deps).SameTypes (o'.names lib deps) := ho'.sameTypes
  have houtlines : ∀ o : Outline, (o.names lib deps).Outlines o.structs :=
    fun o => ⟨rfl, fun m hm => hdeps m (List.mem_append_left _ hm)⟩
  obtain ⟨structs', hstructs', hperm⟩ :=
    layOutAll_rearranged hplain ho'.structs hback.sameTypes (houtlines o)
      (houtlines o') hsorts.nodup hstructs
  have hlaid := Names.layOutAll_laidOut hstructs
  have htypes : ((o.names lib deps).withStructs structs).SameTypes
      ((o'.names lib deps).withStructs structs') :=
    ⟨rfl, layouts_withStructs_perm hplain hlaid.1.nodup hperm, hplain.type⟩
  obtain ⟨hnodup, forms', hforms', hmatch⟩ :=
    Names.functions_rearranged htypes.type ho'.functions hforms
  obtain ⟨globals', hglobals', hgmatch⟩ :=
    (Upheld.foldlM ho'.globals (fun _ _ _ _ hb ht => global_upheld htypes.type hb ht) .nil).ok
      hglobals
  have hserve := serve_withDefinitions htypes rfl hdeps hmatch hnodup hgmatch
  obtain ⟨functions', hfunctions', hlike⟩ := hmatch.carry hfunctions fun _ _ _ hf hg =>
    (lowerFunction_upheld hserve hf).ok hg
  obtain ⟨initialisers', hinitialisers', hilike⟩ :=
    (Upheld.mapM hgmatch fun _ _ hg => lowerGlobal_upheld hserve hg).ok hinitialisers
  refine ⟨_,
    lowerUnit_of_passes (Outline.ofUnit_ok_iff.2 hsorts') hstructs' hforms' hglobals' hfunctions'
    (forall₂_of_mapM hinitialisers') name', rfl, rfl, hperm,
    map_eq_of_forall₂ hgmatch fun _ _ hg => hg.global, fun name => ?_, ?_, ?_, ?_⟩
  · rw [Module.layout?, Module.layout?, find?_perm hlaid.1.nodup hperm]
  · rw [names_of_lowerFunction hfunctions, List.map_map]
    exact hnodup
  · rw [names_of_lowerFunction hfunctions, names_of_lowerFunction hfunctions']
    exact hlike
  · rw [names_of_lowerFunction hfunctions, names_of_lowerFunction hfunctions']
    exact hilike

end Lower

end Kiln
