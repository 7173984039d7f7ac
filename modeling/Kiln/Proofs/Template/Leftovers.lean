import Kiln.Proofs.Template.Words
import Mathlib.Data.List.Infix
/-!
# Holes that are left

No hole of a template is left in an instance (`Template.instantiate_fills`), yet an instance may
have a symbol that reads like a hole. A dollar sign that opens no hole is kept as it stands, and
what is pasted behind it can make a hole of it: of `$x_${n}` comes `$x_y`, and of `$${n}` comes
`${y}` where the name that is bound is `{y}`. Outside the trees that are bound this is the only way
(`Template.leaves_hole_iff`), so where every dollar sign of a symbol with holes opens one of them,
none is left.
-/

namespace Kiln

namespace Template

variable {bindings : Bindings}

/-! ## Symbols that read like holes -/

/-- The symbol is a hole, or has one pasted into it. -/
inductive HasHole (cs : List Char) : Prop
  | whole {hole : List Char} (hcs : cs = '$' :: hole) (hhole : isHoleName hole = true) : HasHole cs
  | pasted {before hole after : List Char}
      (hcs : cs = before ++ '$' :: '\x7b' :: (hole ++ '\x7d' :: after))
      (hhole : isHoleName hole = true) : HasHole cs

/-- A dollar sign of the symbol that opens no hole meets what is pasted behind it. -/
inductive Meets (bindings : Bindings) (cs : List Char) : Prop
  /-- It stands in front, and all behind it comes to the name of a hole. -/
  | whole {rest out : List Char} (hcs : cs = '$' :: rest) (hrest : isHoleName rest = false)
      (hout : Pastes bindings rest out) (hname : isHoleName out = true) : Meets bindings cs
  /-- It stands in front of a hole, and what fills that comes, with what is behind, to the name of a
  hole in braces. -/
  | pasted {before hole after out name rest : List Char} {value : String}
      (hcs : cs = before ++ '$' :: '$' :: '\x7b' :: (hole ++ '\x7d' :: after))
      (hhole : isHoleName hole = true)
      (hvalue : bindings.find? (String.ofList hole) = some (.ident value))
      (hout : Pastes bindings after out) (hname : isHoleName name = true)
      (hspells : value.toList ++ out = '\x7b' :: (name ++ '\x7d' :: rest)) :
      Meets bindings cs

theorem HasHole.dollar {cs : List Char} (h : HasHole cs) : '$' ∈ cs := by
  cases h with
  | whole hcs _ => rw [hcs]; exact List.mem_cons_self
  | pasted hcs _ => rw [hcs]; exact List.mem_append_right _ List.mem_cons_self

/-- The names that are bound are no empty ones, and have no dollar sign. -/
def Dollarless (bindings : Bindings) : Prop :=
  ∀ name value, bindings.find? name = some (.ident value) → value.toList ≠ [] ∧ '$' ∉ value.toList

theorem Fits.dollarless {t : Template} (h : t.Fits bindings) : Dollarless bindings := by
  intro name value hvalue
  obtain ⟨hsymbol, hdollar⟩ := h.symbols name value hvalue
  exact ⟨(Grammar.isSymbol_iff.1 hsymbol).1.1, hdollar⟩

/-! ## Where they come from -/

/-- What is in front of a character, and does not have it, is in front of all in front of it. -/
theorem exists_append_of_notMem {α : Type} {c : α} : ∀ {as bs cs ds : List α}, c ∉ as →
    as ++ bs = cs ++ c :: ds → ∃ es, cs = as ++ es ∧ bs = es ++ c :: ds
  | [], bs, cs, _, _, h => ⟨cs, rfl, h⟩
  | a :: as, bs, [], ds, hc, h => absurd (List.head_eq_of_cons_eq h ▸ List.mem_cons_self) hc
  | a :: as, bs, d :: cs, ds, hc, h => by
    obtain ⟨es, hcs, hbs⟩ := exists_append_of_notMem (fun hmem => hc (List.mem_cons_of_mem a hmem))
      (List.tail_eq_of_cons_eq h)
    exact ⟨es, by rw [hcs, List.head_eq_of_cons_eq h]; rfl, hbs⟩

/-- A dollar sign in front is kept from the symbol. -/
theorem Pastes.of_dollar {cs out : List Char} (h : Pastes bindings cs ('$' :: out))
    (hdollarless : Dollarless bindings) :
    ∃ rest, cs = '$' :: rest ∧ ¬['\x7b'] <+: rest ∧ Pastes bindings rest out := by
  generalize heq : '$' :: out = all at h
  cases h with
  | finish => cases heq
  | @keep c rest _ hplain hrest =>
    cases heq
    exact ⟨rest, rfl, fun hbrace => hplain (List.cons_prefix_cons.2 ⟨rfl, hbrace⟩), hrest⟩
  | @paste name rest more value _ hvalue _ =>
    -- what fills a hole has no dollar sign in front
    obtain ⟨hne, hdollar⟩ := hdollarless _ _ hvalue
    obtain ⟨c, cs, hchars⟩ := List.exists_cons_of_ne_nil hne
    rw [hchars] at heq hdollar
    exact absurd (List.head_eq_of_cons_eq heq ▸ List.mem_cons_self) hdollar

/-- **A dollar sign is kept where it opens no hole**, and what is behind it is filled. -/
theorem Pastes.keeps_dollar {cs out : List Char} (h : Pastes bindings cs out) :
    ∀ {before after : List Char},
    cs = before ++ '$' :: after → ¬['\x7b'] <+: after →
      ∃ front rest, out = front ++ '$' :: rest ∧ Pastes bindings after rest := by
  induction h with
  | finish =>
    intro before after heq
    exact absurd heq.symm (List.append_ne_nil_of_right_ne_nil _ (List.cons_ne_nil _ _))
  | @keep c cs out _ hrest ih =>
    intro before after heq hplain
    rcases before with _ | ⟨b, before⟩
    · cases heq
      exact ⟨[], out, rfl, hrest⟩
    · obtain ⟨front, rest, rfl, hafter⟩ := ih (List.tail_eq_of_cons_eq heq) hplain
      exact ⟨c :: front, rest, rfl, hafter⟩
  | @paste name cs out value hname _ _ ih =>
    intro before after heq hplain
    rcases before with _ | ⟨b, before⟩
    · cases heq
      exact absurd (List.prefix_append ['\x7b'] _) hplain
    · -- the dollar sign is not in the name of the hole
      have hdollar : '$' ∉ '\x7b' :: (name ++ ['\x7d']) := by
        simpa using not_mem_of_isHoleName (c := '$') hname (by decide)
      have hrest : '\x7b' :: (name ++ ['\x7d']) ++ cs = before ++ '$' :: after := by
        simpa using List.tail_eq_of_cons_eq heq
      obtain ⟨between, -, hcs⟩ := exists_append_of_notMem hdollar hrest
      obtain ⟨front, rest, rfl, hafter⟩ := ih hcs hplain
      exact ⟨value.toList ++ front, rest, (List.append_assoc _ _ _).symm, hafter⟩

/-- **No dollar sign is there that was not kept**, as none is in what is bound. -/
theorem Pastes.dollar_kept {cs out : List Char} (h : Pastes bindings cs out)
    (hdollarless : Dollarless bindings) :
    ∀ {front rest : List Char}, out = front ++ '$' :: rest →
      ∃ before after, cs = before ++ '$' :: after ∧ ¬['\x7b'] <+: after ∧
        Pastes bindings after rest := by
  induction h with
  | finish =>
    intro front rest heq
    exact absurd heq.symm (List.append_ne_nil_of_right_ne_nil _ (List.cons_ne_nil _ _))
  | @keep c cs out hplain hcs ih =>
    intro front rest heq
    rcases front with _ | ⟨b, front⟩
    · cases heq
      exact ⟨[], cs, rfl, fun hbrace => hplain (List.cons_prefix_cons.2 ⟨rfl, hbrace⟩), hcs⟩
    · obtain ⟨before, after, rfl, hkept⟩ := ih (List.tail_eq_of_cons_eq heq)
      exact ⟨c :: before, after, rfl, hkept⟩
  | @paste name cs out value _ hvalue _ ih =>
    intro front rest heq
    obtain ⟨between, -, hout⟩ := exists_append_of_notMem (hdollarless _ _ hvalue).2 heq
    obtain ⟨before, after, rfl, hkept⟩ := ih hout
    refine ⟨'$' :: '\x7b' :: (name ++ '\x7d' :: before), after, ?_, hkept⟩
    simp

/-- What comes to the name of a hole has no brace in front. -/
theorem Pastes.no_brace {cs out : List Char} (h : Pastes bindings cs out)
    (hname : isHoleName out = true) :
    ¬['\x7b'] <+: cs := by
  rintro ⟨more, rfl⟩
  have hbrace : out = '\x7b' :: out.tail := by
    cases h
    rfl
  have hmem : '\x7b' ∈ out := hbrace ▸ List.mem_cons_self
  exact not_mem_of_isHoleName hname (by decide) hmem

/-- **A symbol with its holes filled reads like a hole just where a dollar sign meets what is
pasted**, if it was no hole itself. -/
theorem Pastes.hasHole_iff {cs out : List Char} (h : Pastes bindings cs out)
    (hdollarless : Dollarless bindings)
    (hother : ∀ name, cs = '$' :: name → isHoleName name = false) :
    HasHole out ↔ Meets bindings cs := by
  constructor
  · intro hole
    cases hole with
    | @whole hole hcs hhole =>
      obtain ⟨rest, rfl, -, hrest⟩ := Pastes.of_dollar (hcs ▸ h) hdollarless
      exact .whole rfl (hother rest rfl) hrest hhole
    | @pasted front hole rest hcs hhole =>
      obtain ⟨before, after, rfl, hplain, hafter⟩ := h.dollar_kept hdollarless hcs
      generalize heq : '\x7b' :: (hole ++ '\x7d' :: rest) = spelled at hafter
      cases hafter with
      | finish => cases heq
      | keep =>
        -- the brace would have been there, and have opened a hole
        cases heq
        exact absurd (List.prefix_append ['\x7b'] _) hplain
      | paste hname hvalue hout => exact .pasted rfl hname hvalue hout hhole heq.symm
  · intro hmeets
    cases hmeets with
    | @whole rest filled hcs hrest hout hname =>
      subst hcs
      have hplain : ¬['$', '\x7b'] <+: '$' :: rest := fun hopens =>
        hout.no_brace hname (List.cons_prefix_cons.1 hopens).2
      rw [h.unique (.keep hplain hout)]
      exact .whole rfl hname
    | @pasted before hole after filled name rest value hcs hhole hvalue hout hname hspells =>
      have hplain : ¬['\x7b'] <+: '$' :: '\x7b' :: (hole ++ '\x7d' :: after) := by
        intro hbrace
        cases (List.cons_prefix_cons.1 hbrace).1
      obtain ⟨front, spelled, rfl, hspelled⟩ := h.keeps_dollar hcs hplain
      rw [hspelled.unique (.paste hhole hvalue hout), hspells]
      exact .pasted rfl hname

/-- A hole is no symbol in which a dollar sign meets what is pasted. -/
theorem Meets.no_hole {cs hole : List Char} (h : Meets bindings cs) (hcs : cs = '$' :: hole) :
    isHoleName hole = false := by
  cases h with
  | whole hrest hother =>
    cases hcs.symm.trans hrest
    exact hother
  | @pasted before name after _ _ _ _ hmeets =>
    -- the dollar sign in front of the hole is not the first
    have hdollar : '$' ∈ hole := by
      rw [hcs] at hmeets
      rcases before with _ | ⟨c, before⟩
      · rw [List.tail_eq_of_cons_eq hmeets]
        exact List.mem_cons_self
      · rw [List.tail_eq_of_cons_eq hmeets]
        exact List.mem_append_right _ List.mem_cons_self
    rw [Bool.eq_false_iff]
    exact fun hname => not_mem_of_isHoleName hname (by decide) hdollar

/-- The symbol that it meets it in has a hole, and a dollar sign that opens none. -/
theorem Meets.opens_none {cs : List Char} (h : Meets bindings cs) :
    ['$', '\x7b'] <:+: cs ∧ ∃ after, '$' :: after <:+ cs ∧ ¬['\x7b'] <+: after := by
  cases h with
  | @whole rest out hcs hother hout hname =>
    subst hcs
    refine ⟨?_, rest, List.suffix_rfl, hout.no_brace hname⟩
    -- without a hole in it, what is behind the dollar sign would have stayed, and is no name
    by_contra hopens
    rw [hout.eq_self fun hpart => hopens (hpart.trans (List.suffix_cons _ _).isInfix), hother]
      at hname
    cases hname
  | @pasted before hole after _ _ _ _ hcs =>
    subst hcs
    have hhole : ['$', '\x7b'] <:+: '$' :: '$' :: '\x7b' :: (hole ++ '\x7d' :: after) :=
      ⟨['$'], _, rfl⟩
    refine ⟨hhole.trans (List.suffix_append before _).isInfix, _, List.suffix_append before _, ?_⟩
    intro hbrace
    cases (List.cons_prefix_cons.1 hbrace).1

/-! ## Symbols outside of what is bound -/

/-- The symbol takes the place of one of the tree, and that is no hole for a fragment. -/
inductive Outside (bindings : Bindings) : Tree → Tree → String → Prop
  | symbol {symbol name : String} {s : Span} {r : Tree}
      (hother : ∀ hole f, symbol.toList = '$' :: hole → isHoleName hole = true →
        bindings.find? (String.ofList hole) ≠ some (.fragment f))
      (hname : name ∈ r.symbols.map (·.1)) : Outside bindings (.leaf (.sym symbol) s) r name
  | item {items items' : List Tree} {s s' : Span} {i : Nat} {t r : Tree} {name : String}
      (ht : items[i]? = some t) (hr : items'[i]? = some r) (hname : Outside bindings t r name) :
      Outside bindings (.node items s) (.node items' s') name

/-- What spells a type has no dollar sign. -/
theorem no_dollar_of_type (u : TypeExpr) (s : Span) :
    ∀ name ∈ ((Binding.type u).toTree s).symbols.map (·.1),
    '$' ∉ name.toList := by
  intro name hname
  rw [Binding.toTree, Tree.names_respan] at hname
  obtain ⟨p, hp, rfl⟩ := List.mem_map.1 hname
  exact (isFillingName_iff.1 (isFillingName_of_checkType u.spells p hp)).2

/-- **Outside of the fragments that are bound, a symbol of a filled tree reads like a hole just if
in one of the tree a dollar sign meets what is pasted.** -/
theorem Filled.hasHole_iff (hdollarless : Dollarless bindings) {t : Tree} :
    ∀ {r : Tree}, Filled bindings t r →
    ((∃ name, Outside bindings t r name ∧ HasHole name.toList) ↔
      ∃ p ∈ t.symbols, Meets bindings p.1.toList) := by
  induction t using Tree.inductItems with
  | leaf a s =>
    intro r h
    cases h with
    | @hole symbol hole b _ hsymbol hhole hb =>
      constructor
      · rintro ⟨name, houtside, hname⟩
        cases houtside with
        | symbol hother hmem =>
          -- what fills the hole has no dollar sign
          have hno : '$' ∉ name.toList := by
            cases b with
            | ident value =>
              obtain rfl := List.mem_singleton.1 hmem
              exact (hdollarless _ _ hb).2
            | type u => exact no_dollar_of_type u s name hmem
            | fragment f => exact absurd hb (hother hole f hsymbol hhole)
          exact absurd hname.dollar hno
      · rintro ⟨p, hp, hmeets⟩
        obtain rfl := List.mem_singleton.1 hp
        rw [hmeets.no_hole hsymbol] at hhole
        cases hhole
    | @symbol symbol out _ hother hout =>
      have hiff := hout.hasHole_iff hdollarless hother
      constructor
      · rintro ⟨name, houtside, hname⟩
        cases houtside with
        | symbol _ hmem =>
          obtain rfl := List.mem_singleton.1 hmem
          rw [String.toList_ofList] at hname
          exact ⟨_, List.mem_singleton_self _, hiff.1 hname⟩
      · rintro ⟨p, hp, hmeets⟩
        obtain rfl := List.mem_singleton.1 hp
        refine ⟨String.ofList out, .symbol ?_ (List.mem_singleton_self _), ?_⟩
        · intro hole f hsymbol hhole
          rw [hother hole hsymbol] at hhole
          cases hhole
        · rw [String.toList_ofList]
          exact hiff.2 hmeets
    | atom ha =>
      constructor
      · rintro ⟨name, houtside, -⟩
        cases houtside
        exact absurd rfl (ha _)
      · rintro ⟨p, hp, -⟩
        cases a with
        | sym symbol => exact absurd rfl (ha symbol)
        | _ => exact absurd hp List.not_mem_nil
  | node items s ih =>
    intro r h
    cases h with
    | @node _ items' _ hitems =>
      rw [Tree.symbols, Tree.symbolsAll_eq_flatMap]
      constructor
      · rintro ⟨name, houtside, hname⟩
        cases houtside with
        | @item _ _ _ _ i t r _ ht hr houtside =>
          obtain ⟨r', hr', hfilled⟩ := getElem?_of_forall₂ hitems ht
          obtain rfl := Option.some.inj (hr.symm.trans hr')
          have hmem := List.mem_of_getElem? ht
          obtain ⟨p, hp, hmeets⟩ := (ih t hmem hfilled).1 ⟨name, houtside, hname⟩
          exact ⟨p, List.mem_flatMap.2 ⟨t, hmem, hp⟩, hmeets⟩
      · rintro ⟨p, hp, hmeets⟩
        obtain ⟨t, hmem, hp⟩ := List.mem_flatMap.1 hp
        obtain ⟨i, ht⟩ := List.mem_iff_getElem?.1 hmem
        obtain ⟨r, hr, hfilled⟩ := getElem?_of_forall₂ hitems ht
        obtain ⟨name, houtside, hname⟩ := (ih t hmem hfilled).2 ⟨p, hp, hmeets⟩
        exact ⟨name, .item ht hr houtside, hname⟩

/-- **Outside of the fragments that are bound, a symbol of an instance reads like a hole just if a
dollar sign of the body meets what is pasted behind it**, and so none does if, in the symbols that
have a hole, every dollar sign opens one. -/
theorem leaves_hole_iff {t : Template} {es : List (String × Binding)} {f : Fragment}
    (h : t.instantiate (.ofList es) = .ok f) :
    ((∃ name, Outside (.ofList es) t.body.root f.root name ∧ HasHole name.toList) ↔
        ∃ p ∈ t.body.root.symbols, Meets (.ofList es) p.1.toList) ∧
      ((∀ p ∈ t.body.root.symbols, ['$', '\x7b'] <:+: p.1.toList →
          ∀ after, '$' :: after <:+ p.1.toList → ['\x7b'] <+: after) →
        ∀ name, Outside (.ofList es) t.body.root f.root name → ¬HasHole name.toList) := by
  have hfits := exists_instance_iff.1 ⟨f, h⟩
  have hiff := (filled_of_instantiate h).hasHole_iff hfits.dollarless
  refine ⟨hiff, fun hopened name houtside hname => ?_⟩
  obtain ⟨p, hp, hmeets⟩ := hiff.1 ⟨name, houtside, hname⟩
  obtain ⟨hopens, after, hafter, hnone⟩ := hmeets.opens_none
  exact hnone (hopened p hp hopens after hafter)

/-- A name is pasted into a symbol, and the hole of the fragment in the place of another is its
own. -/
theorem leaves_hole_iff_count :
    let body : Fragment :=
      ⟨.node [.leaf (.sym "${n}_count") ⟨1, 11⟩, .leaf (.sym "$v") ⟨12, 14⟩] ⟨0, 15⟩, default⟩
    let t : Template := ⟨"t", .ofList [("v", .fragment), ("n", .ident)], body, by decide +kernel⟩
    let filler : Fragment := ⟨.node [.leaf (.sym "$n") ⟨3, 5⟩] ⟨2, 6⟩, default⟩
    let es : List (String × Binding) := [("v", .fragment filler), ("n", .ident "map")]
    let filled : Tree := .node [.leaf (.sym "$n") ⟨12, 14⟩] ⟨12, 14⟩
    let f : Fragment := ⟨.node [.leaf (.sym "map_count") ⟨1, 11⟩, filled] ⟨0, 15⟩, default⟩
    t.instantiate (.ofList es) = .ok f ∧
      ∀ name, Outside (.ofList es) body.root f.root name → ¬HasHole name.toList := by
  intro body t filler es filled f
  have hf : t.instantiate (.ofList es) = .ok f := by
    subst body t filler es filled f
    rfl
  refine ⟨hf, (leaves_hole_iff hf).2 ?_⟩
  have hpasted :
      ∀ cs ∈ "${n}_count".toList.tails, cs.head? = some '$' → ['\x7b'] <+: cs.tail := by decide
  have hwhole : ¬['$', '\x7b'] <:+: "$v".toList := by decide
  intro p hp hopens after hafter
  rcases List.mem_pair.1 hp with rfl | rfl
  · exact hpasted _ ((List.mem_tails _ _).2 hafter) rfl
  · exact absurd hopens hwhole

/-- A dollar sign in front of a hole makes a hole of any name, and of a name in braces as well. -/
theorem leaves_hole_behind_dollar :
    let body : Fragment :=
      ⟨.node [.leaf (.sym "f") ⟨1, 2⟩, .leaf (.sym "$${n}") ⟨3, 8⟩] ⟨0, 9⟩, ⟨"b", "(f $${n})"⟩⟩
    let t : Template := ⟨"t", .ofList [("n", .ident)], body, by decide +kernel⟩
    let f (name : String) : Fragment :=
      ⟨.node [.leaf (.sym "f") ⟨1, 2⟩, .leaf (.sym name) ⟨3, 8⟩] ⟨0, 9⟩, ⟨"b", "(f $${n})"⟩⟩
    t.Composed ∧
      (t.instantiate (.ofList [("n", .ident "x")]) = .ok (f "$x") ∧
        Outside (.ofList [("n", .ident "x")]) body.root (f "$x").root "$x" ∧ HasHole "$x".toList) ∧
      (t.instantiate (.ofList [("n", .ident "\x7bn\x7d")]) = .ok (f "${n}") ∧
        Outside (.ofList [("n", .ident "\x7bn\x7d")]) body.root (f "${n}").root "${n}" ∧
        HasHole "${n}".toList) := by
  intro body t f
  have hbody : Fragment.readExpr "b" "(f $${n})" = .ok body := by
    rw [Fragment.readExpr, @readForms_eq _ "(f $${n})".toList rfl]
    rfl
  have houtside :
      ∀ (bindings : Bindings) (name : String), Outside bindings body.root (f name).root name := by
    intro bindings name
    refine .item (i := 1) rfl rfl (.symbol ?_ (List.mem_singleton_self _))
    intro hole g hsymbol hhole
    cases hsymbol
    cases hhole
  exact ⟨.made (.expr hbody) (make_eq_self t), ⟨by rfl, houtside _ _, .whole rfl rfl⟩,
    by rfl, houtside _ _, @HasHole.pasted _ [] ['n'] [] rfl rfl⟩

end Template

end Kiln
