import Kiln.Proofs.Template.Places
import Kiln.Proofs.Tree.Symbols
/-!
# Names that are read again

A name that fills a hole is looked at on its own, as a text that could be a symbol (`isSymbol`). The
reader looks at whole words, and takes some of those for literals (`Grammar.Literal`): words that
open as a number, and the words for truth values. So what an instance holds in the place of a hole,
or with names pasted together (`Template.Coins`), may be a symbol that is not read as one. It is
read as that symbol just if it is no literal (`Template.rereads_of_instantiate`), and an instance as
a whole is printed as a text that is read as a like tree just if none of the names made in it is a
literal.
-/

namespace Kiln

namespace Tree

/-- A tree has the same symbols wherever it is. -/
theorem names_respan (s : Span) (t : Tree) :
    (t.respan s).symbols.map (·.1) = t.symbols.map (·.1) := by
  induction t using inductItems with
  | leaf a _ => cases a <;> rfl
  | node items _ ih =>
    rw [respan, respanAll_eq_map, symbols, symbols, symbolsAll_eq_flatMap, symbolsAll_eq_flatMap,
      List.map_flatMap, List.map_flatMap, List.flatMap_map]
    exact List.flatMap_congr ih

/-- Trees that are alike have the same symbols. -/
theorem names_symbols_of_alike {t u : Tree} (h : t.alike u = true) :
    t.symbols.map (·.1) = u.symbols.map (·.1) := by
  rw [← names_respan default t, ← names_respan default u, respan_eq_of_alike default h]

end Tree

namespace Grammar

theorem isWord_of_alike {t u : Tree} (h : t.alike u = true) (ht : Worded t) : Worded u := by
  intro p hp
  have hname : p.1 ∈ t.symbols.map (·.1) := Tree.names_symbols_of_alike h ▸ List.mem_map_of_mem hp
  obtain ⟨q, hq, heq⟩ := List.mem_map.1 hname
  exact heq ▸ ht q hq

/-- **A legible tree is printed as a text that is read as a like tree, just if all its symbols are
words.** -/
theorem readForms_render_iff {t : Tree} (hlegible : t.Legible) :
    (∃ u, readForms t.render = .ok [u] ∧ u.alike t = true) ↔ Worded t := by
  constructor
  · rintro ⟨u, hread, halike⟩
    obtain ⟨d⟩ := derivation_of_readForms hread
    exact isWord_of_alike halike (d.worded u (List.mem_singleton_self u))
  · exact fun hworded => readForms_of_legible hworded hlegible 0

end Grammar

/-! ## What is read has words for symbols -/

theorem isWord_do : Grammar.IsWord "do" := by
  refine Grammar.isWord_iff.2 ⟨⟨by decide, List.all_eq_true.1 (by decide)⟩, ?_⟩
  rintro (hopens | heq | heq)
  · obtain ⟨c, rest, heq, hc⟩ := hopens.head
    cases heq
    exact absurd hc (by decide)
  · exact absurd heq (by decide)
  · exact absurd heq (by decide)

theorem Grammar.worded_of_readForms {text : String} {forms : List Tree}
    (h : readForms text = .ok forms) :
    ∀ t ∈ forms, Grammar.Worded t := by
  obtain ⟨d⟩ := Grammar.derivation_of_readForms h
  exact d.worded

theorem worded_leaf_do (s : Span) : Grammar.Worded (.leaf (.sym "do") s) := by
  intro p hp
  obtain rfl := List.mem_singleton.1 hp
  exact isWord_do

theorem Fragment.worded_of_readUnit {name text : String} {f : Fragment}
    (h : readUnit name text = .ok f) :
    Grammar.Worded f.root := by
  obtain ⟨forms, hforms, hf⟩ := ok_of_bind h
  cases hf
  exact Grammar.worded_node.2
    (List.forall_mem_cons.2 ⟨worded_leaf_do _, Grammar.worded_of_readForms hforms⟩)

theorem Fragment.worded_of_readExpr {name text : String} {f : Fragment}
    (h : readExpr name text = .ok f) :
    Grammar.Worded f.root := by
  unfold readExpr at h
  split at h
  · cases h
  · rename_i form hforms
    cases h
    exact Grammar.worded_of_readForms hforms form List.mem_cons_self
  · cases h

theorem partOf_of_form? {word : String} {t u : Tree} {items : List Tree}
    (h : t.form? word = some items) (hu : u ∈ items) : u.PartOf t := by
  rcases t with ⟨a, s⟩ | ⟨_ | ⟨head, rest⟩, s⟩
  · cases h
  · cases h
  · rw [Tree.form?] at h
    split at h
    · cases h
      exact .item (List.mem_cons_of_mem head hu) (.whole u)
    · cases h

/-- **The body of a template is a part of its form, or some parts of it in a sequence.** -/
theorem Template.body_cases {name text : String} {t : Template}
    (h : Template.read name text = .ok t) :
    ∃ form, readForms text = .ok [form] ∧
      (t.body.root.PartOf form ∨ ∃ items, (∀ u ∈ items, u.PartOf form) ∧
      t.body.root = .node (.leaf (.sym "do") form.span :: items) form.span) := by
  unfold Template.read at h
  obtain ⟨forms, hforms, h⟩ := ok_of_bind h
  dsimp only at h
  split at h
  case h_2 => cases h
  rename_i form
  refine ⟨form, hforms, ?_⟩
  split at h
  case h_2 => cases h
  rename_i args hargs
  split at h
  case h_2 => cases h
  rename_i header body
  split at h
  case h_2 => cases h
  obtain ⟨holes, -, h⟩ := ok_of_bind h
  have hbody :
      ∀ u ∈ body, u.PartOf form :=
        fun u hu => partOf_of_form? hargs (List.mem_cons_of_mem header hu)
  rcases body with _ | ⟨first, _ | ⟨second, rest⟩⟩
  · cases h
  · rw [body_of_make h]
    exact .inl (hbody first List.mem_cons_self)
  · rw [body_of_make h]
    exact .inr ⟨_, hbody, rfl⟩

theorem Template.worded_of_read {name text : String} {t : Template}
    (h : Template.read name text = .ok t) :
    Grammar.Worded t.body.root := by
  obtain ⟨form, hforms, hbody⟩ := body_cases h
  have hparts : ∀ u : Tree, u.PartOf form → Grammar.Worded u := fun u hu p hp =>
    Grammar.worded_of_readForms hforms form (List.mem_singleton_self form) p (hu.symbols_subset hp)
  rcases hbody with hpart | ⟨items, hitems, heq⟩
  · exact hparts _ hpart
  · rw [heq]
    exact Grammar.worded_node.2
      (List.forall_mem_cons.2 ⟨worded_leaf_do _, fun u hu => hparts u (hitems u hu)⟩)

/-! ## Characters of symbols -/

/-- Every symbol of the tree is made of characters of words. -/
def Tree.Lettered (t : Tree) : Prop := ∀ p ∈ t.symbols, ∀ c ∈ p.1.toList, isSymbolChar c = true

theorem Grammar.Worded.lettered {t : Tree} (h : Grammar.Worded t) : t.Lettered :=
  fun p hp => (h p hp).2.1

/-- What spells a type has names that could fill a hole. -/
theorem isFillingName_of_checkType {t : Tree} (h : checkType t = .ok ()) :
    ∀ p ∈ t.symbols, isFillingName p.1 = true := by
  fun_induction checkType t with
  | case1 name s hname =>
    intro p hp
    obtain rfl := List.mem_singleton.1 hp
    exact hname
  | case2 | case3 | case5 | case6 => cases h
  | case4 head inner s hhead ih =>
    have hword : ∀ p ∈ head.symbols, isFillingName p.1 = true := by
      rw [Bool.or_eq_true, decide_eq_true_eq, decide_eq_true_eq] at hhead
      rcases head with ⟨a, s'⟩ | ⟨items, s'⟩
      · cases a with
        | sym name =>
          intro p hp
          obtain rfl := List.mem_singleton.1 hp
          have hname : name = "ptr" ∨ name = "seq" := hhead.imp Option.some.inj Option.some.inj
          show isFillingName name = true
          rcases hname with rfl | rfl <;> decide
        | _ => exact fun p hp => absurd hp List.not_mem_nil
      · rcases hhead with hhead | hhead <;> cases hhead
    rw [Tree.symbols, Tree.symbolsAll_eq_flatMap]
    intro p hp
    obtain ⟨u, hu, hsymbol⟩ := List.mem_flatMap.1 hp
    rcases List.mem_pair.1 hu with rfl | rfl
    · exact hword p hsymbol
    · exact ih h p hsymbol

theorem lettered_of_checkType {t : Tree} (h : checkType t = .ok ()) : t.Lettered := fun p hp =>
  (Grammar.isSymbol_iff.1 (Template.isFillingName_iff.1 (isFillingName_of_checkType h p hp)).1).1.2

theorem Tree.Lettered.respan {t : Tree} (h : t.Lettered) (s : Span) : (t.respan s).Lettered := by
  intro p hp
  have hname : p.1 ∈ t.symbols.map (·.1) := Tree.names_respan s t ▸ List.mem_map_of_mem hp
  obtain ⟨q, hq, heq⟩ := List.mem_map.1 hname
  exact heq ▸ h q hq

namespace Template

variable {bindings : Bindings}

/-! ## Names that are made -/

/-- The name that filling its holes makes of a symbol: the name that is bound, if the symbol is a
hole, or the symbol with names pasted into it. -/
inductive Coins (bindings : Bindings) (symbol : String) : String → Prop
  | whole {hole : List Char} {value : String} (hsymbol : symbol.toList = '$' :: hole)
      (hhole : isHoleName hole = true)
      (hvalue : bindings.find? (String.ofList hole) = some (.ident value)) :
      Coins bindings symbol value
  | pasted {out : List Char}
      (hother : ∀ hole, symbol.toList = '$' :: hole → isHoleName hole = false)
      (hopens : ['$', '\x7b'] <:+: symbol.toList) (hout : Pastes bindings symbol.toList out) :
      Coins bindings symbol (String.ofList out)

/-- The names that are made in an instance of the template. -/
def CoinedBy (t : Template) (bindings : Bindings) (name : String) : Prop :=
  ∃ p ∈ t.body.root.symbols, Coins bindings p.1 name

/-- A symbol that opens no hole is what it comes to. -/
theorem Pastes.eq_self {cs out : List Char} (h : Pastes bindings cs out)
    (hopens : ¬['$', '\x7b'] <:+: cs) :
    out = cs := by
  induction h with
  | finish => rfl
  | keep _ _ ih => rw [ih fun hpart => hopens (hpart.trans (List.suffix_cons _ _).isInfix)]
  | paste => exact absurd ⟨[], _, rfl⟩ hopens

/-- The names that are bound can stand in a symbol. -/
def Named (bindings : Bindings) : Prop :=
  ∀ name value, bindings.find? name = some (.ident value) →
    value.toList ≠ [] ∧ ∀ c ∈ value.toList, isSymbolChar c = true

theorem Fits.named {t : Template} (h : t.Fits bindings) : Named bindings :=
  fun name value hvalue => (Grammar.isSymbol_iff.1 (h.symbols name value hvalue).1).1

/-- What is pasted together of characters of words is made of them as well. -/
theorem Pastes.characters {cs out : List Char} (h : Pastes bindings cs out)
    (hnamed : Named bindings) (hcs : ∀ c ∈ cs, isSymbolChar c = true) :
    ∀ c ∈ out, isSymbolChar c = true := by
  induction h with
  | finish => exact hcs
  | keep _ _ ih =>
    rw [List.forall_mem_cons] at hcs ⊢
    exact ⟨hcs.1, ih hcs.2⟩
  | @paste name cs out value _ hvalue _ ih =>
    rw [List.forall_mem_append]
    refine ⟨(hnamed _ _ hvalue).2, ih fun c hc => hcs c ?_⟩
    exact List.mem_cons_of_mem _
      (List.mem_cons_of_mem _ (List.mem_append_right _ (List.mem_cons_of_mem _ hc)))

theorem Pastes.ne_nil {cs out : List Char} (h : Pastes bindings cs out) (hnamed : Named bindings)
    (hcs : cs ≠ []) :
    out ≠ [] := by
  cases h with
  | finish => exact hcs
  | keep => exact List.cons_ne_nil _ _
  | paste _ hvalue _ => exact List.append_ne_nil_of_left_ne_nil (hnamed _ _ hvalue).1 _

/-- **A name that is made is made of characters of words**, if the symbol that it is made of is. -/
theorem Coins.characters {symbol name : String} (h : Coins bindings symbol name)
    (hnamed : Named bindings) (hsymbol : ∀ c ∈ symbol.toList, isSymbolChar c = true) :
    name.toList ≠ [] ∧ ∀ c ∈ name.toList, isSymbolChar c = true := by
  cases h with
  | whole _ _ hvalue => exact hnamed _ _ hvalue
  | pasted _ hopens hout =>
    rw [String.toList_ofList]
    have hne : symbol.toList ≠ [] :=
      fun hnil => List.cons_ne_nil _ _ (List.infix_nil.1 (hnil ▸ hopens))
    exact ⟨hout.ne_nil hnamed hne, hout.characters hnamed hsymbol⟩

/-! ## Symbols of an instance -/

/-- The name is a symbol of a tree that is bound. -/
def Brought (bindings : Bindings) (name : String) : Prop :=
  ∃ hole b, bindings.find? hole = some b ∧ (∀ value, b ≠ .ident value) ∧
    name ∈ (b.toTree default).symbols.map (·.1)

theorem names_toTree (b : Binding) (s : Span) :
    (b.toTree s).symbols.map (·.1) = (b.toTree default).symbols.map (·.1) := by
  rw [← toTree_respan b default s]
  exact (Tree.names_respan default _).symm

/-- **Where the symbols of a filled tree are from**: they are made of names, or stood in the tree,
or in a tree that is bound. -/
theorem Filled.symbols_cases {t : Tree} :
    ∀ {r : Tree}, Filled bindings t r → ∀ name ∈ r.symbols.map (·.1),
    (∃ p ∈ t.symbols, Coins bindings p.1 name) ∨ name ∈ t.symbols.map (·.1) ∨
    Brought bindings name := by
  induction t using Tree.inductItems with
  | leaf a s =>
    intro r h name hname
    cases h with
    | @hole symbol hole b _ hsymbol hhole hb =>
      cases b with
      | ident value =>
        obtain rfl := List.mem_singleton.1 hname
        exact .inl ⟨_, List.mem_singleton_self _, .whole hsymbol hhole hb⟩
      | type => exact .inr (.inr ⟨_, _, hb, by rintro _ ⟨⟩, names_toTree _ s ▸ hname⟩)
      | fragment => exact .inr (.inr ⟨_, _, hb, by rintro _ ⟨⟩, names_toTree _ s ▸ hname⟩)
    | @symbol symbol out _ hother hout =>
      obtain rfl := List.mem_singleton.1 hname
      by_cases hopens : ['$', '\x7b'] <:+: symbol.toList
      · exact .inl ⟨_, List.mem_singleton_self _, .pasted hother hopens hout⟩
      · rw [hout.eq_self hopens, String.ofList_toList]
        exact .inr (.inl (List.mem_singleton_self _))
    | atom => exact .inr (.inl hname)
  | node items s ih =>
    intro r h name hname
    cases h with
    | @node _ items' _ hitems =>
      rw [Tree.symbols, Tree.symbolsAll_eq_flatMap, List.map_flatMap, List.mem_flatMap] at hname
      obtain ⟨u, hu, hname⟩ := hname
      obtain ⟨t, ht, hfilled⟩ := exists_of_forall₂ hitems hu
      rw [Tree.symbols, Tree.symbolsAll_eq_flatMap]
      refine (ih t ht hfilled name hname).imp ?_ (Or.imp_left ?_)
      · rintro ⟨p, hp, hcoins⟩
        exact ⟨p, List.mem_flatMap.2 ⟨t, ht, hp⟩, hcoins⟩
      · rw [List.map_flatMap]
        exact fun hmem => List.mem_flatMap.2 ⟨t, ht, hmem⟩

/-- **A name that is made of a symbol takes its place.** -/
theorem Filled.coined {t : Tree} : ∀ {r : Tree}, Filled bindings t r → ∀ p ∈ t.symbols, ∀ name,
    Coins bindings p.1 name → (name, p.2) ∈ r.symbols := by
  induction t using Tree.inductItems with
  | leaf a s =>
    intro r h p hp name hcoins
    cases a with
    | sym symbol =>
      obtain rfl := List.mem_singleton.1 hp
      have hname : Filled bindings (.leaf (.sym symbol) s) (.leaf (.sym name) s) := by
        cases hcoins with
        | whole hsymbol hhole hvalue => exact .hole hsymbol hhole hvalue
        | pasted hother _ hout => exact .symbol hother hout
      rw [h.unique hname]
      exact List.mem_singleton_self _
    | _ => exact absurd hp List.not_mem_nil
  | node items s ih =>
    intro r h p hp name hcoins
    cases h with
    | @node _ items' _ hitems =>
      rw [Tree.symbols, Tree.symbolsAll_eq_flatMap] at hp ⊢
      obtain ⟨t, ht, hp⟩ := List.mem_flatMap.1 hp
      obtain ⟨u, hu, hfilled⟩ := exists_of_forall₂ hitems.flip ht
      exact List.mem_flatMap.2 ⟨u, hu, ih t ht hfilled p hp name hcoins⟩

/-- **What an instance has for symbols is made of characters of words**, if that is so of the body
and of what is bound. -/
theorem lettered_of_instantiate {t : Template} {es : List (String × Binding)} {f : Fragment}
    (hbody : t.body.root.Lettered)
    (hbound : ∀ hole g, (NameMap.ofList es : Bindings).find? hole = some (.fragment g) →
      g.root.Lettered)
    (h : t.instantiate (.ofList es) = .ok f) : f.root.Lettered := by
  have hfits := exists_instance_iff.1 ⟨f, h⟩
  have hfilled := filled_of_instantiate h
  intro p hp
  rcases hfilled.symbols_cases p.1 (List.mem_map_of_mem hp) with ⟨q, hq, hcoins⟩ | hmem
    | ⟨hole, b, hb, hno, hmem⟩
  · exact (hcoins.characters hfits.named (hbody q hq)).2
  · obtain ⟨q, hq, heq⟩ := List.mem_map.1 hmem
    exact heq ▸ hbody q hq
  · obtain ⟨q, hq, heq⟩ := List.mem_map.1 hmem
    cases b with
    | ident value => exact absurd rfl (hno value)
    | type u => exact heq ▸ (lettered_of_checkType u.spells).respan default q hq
    | fragment g => exact heq ▸ (hbound hole g hb).respan default q hq

end Template

/-! ## The templates there are -/

mutual

/-- The fragments there are: they were read, or are instances of templates there are, filled with
such fragments. -/
inductive Fragment.Composed : Fragment → Prop
  | unit {name text : String} {f : Fragment} : Fragment.readUnit name text = .ok f →
      Fragment.Composed f
  | expr {name text : String} {f : Fragment} : Fragment.readExpr name text = .ok f →
      Fragment.Composed f
  | filled {t : Template} {es : List (String × Binding)} {f : Fragment} : Template.Composed t →
      (∀ hole g, (NameMap.ofList es : Bindings).find? hole = some (.fragment g) →
        Fragment.Composed g) →
      t.instantiate (.ofList es) = .ok f → Fragment.Composed f

/-- The templates there are: they were read, or have a fragment for a body that there is. -/
inductive Template.Composed : Template → Prop
  | read {name text : String} {t : Template} : Template.read name text = .ok t → Template.Composed t
  | made {name : String} {holes : Holes} {body : Fragment} {t : Template} : Fragment.Composed body →
      Template.make name holes body = .ok t → Template.Composed t

end

mutual

theorem Fragment.Composed.lettered : ∀ {f : Fragment}, f.Composed → f.root.Lettered
  | _, .unit h => (Fragment.worded_of_readUnit h).lettered
  | _, .expr h => (Fragment.worded_of_readExpr h).lettered
  | _, .filled ht hbound h =>
    Template.lettered_of_instantiate ht.lettered (fun hole g hg => (hbound hole g hg).lettered) h

theorem Template.Composed.lettered : ∀ {t : Template}, t.Composed → t.body.root.Lettered
  | _, .read h => (Template.worded_of_read h).lettered
  | _, .made hbody h => Template.body_of_make h ▸ hbody.lettered

end

namespace Template

/-- The symbols of what is bound are words, names apart. -/
def BindsWords (bindings : Bindings) : Prop :=
  ∀ hole b, bindings.find? hole = some b → (∀ value, b ≠ .ident value) →
    Grammar.Worded (b.toTree default)

/-- What is read again of an instance `f` of the template. -/
structure Rereads (t : Template) (bindings : Bindings) (f : Fragment) : Prop where
  /-- A name that is made in the instance stands in it. -/
  stands : ∀ name, t.CoinedBy bindings name → ∃ s, (name, s) ∈ f.root.symbols
  /-- As a text of its own, it is read as that symbol just if it is no literal. -/
  name : ∀ name, t.CoinedBy bindings name →
    ((∃ s, readForms name = .ok [.leaf (.sym name) s]) ↔ ¬Grammar.Literal name.toList)
  /-- If all else can be read, what is printed of the instance is read as a tree like it just if no
  name is one. -/
  root : Grammar.Worded t.body.root → BindsWords bindings → f.root.Legible →
    ((∃ u, readForms f.root.render = .ok [u] ∧ u.alike f.root = true) ↔
      ∀ name, t.CoinedBy bindings name → ¬Grammar.Literal name.toList)

/-- **A name that is made in an instance is read as the symbol that it is just if it is no
literal**, and so the instance is read again as it was printed just if no name that is made in it is
a literal. -/
theorem rereads_of_instantiate {t : Template} {es : List (String × Binding)} {f : Fragment}
    (ht : t.Composed) (h : t.instantiate (.ofList es) = .ok f) : t.Rereads (.ofList es) f := by
  have hfits := exists_instance_iff.1 ⟨f, h⟩
  have hfilled := filled_of_instantiate h
  have hstands : ∀ name, t.CoinedBy (.ofList es) name → ∃ s, (name, s) ∈ f.root.symbols :=
    fun name ⟨p, hp, hcoins⟩ => ⟨p.2, hfilled.coined p hp name hcoins⟩
  -- a name that is made is a word as far as its characters go
  have hword :
      ∀ name, t.CoinedBy (.ofList es) name → (Grammar.IsWord name ↔ ¬Grammar.Literal name.toList) :=
    fun name ⟨p, hp, hcoins⟩ =>
      Grammar.isWord_iff.trans (and_iff_right (hcoins.characters hfits.named (ht.lettered p hp)))
  refine ⟨hstands, fun name hname => Grammar.readForms_symbol_iff.trans (hword name hname), ?_⟩
  intro hbody hbound hlegible
  rw [Grammar.readForms_render_iff hlegible]
  constructor
  · intro hworded name hname
    obtain ⟨s, hs⟩ := hstands name hname
    exact (hword name hname).1 (hworded _ hs)
  · intro hliteral p hp
    rcases hfilled.symbols_cases p.1
      (List.mem_map_of_mem hp) with hname | hmem | ⟨hole, b, hb, hno, hmem⟩
    · exact (hword p.1 hname).2 (hliteral p.1 hname)
    · obtain ⟨q, hq, heq⟩ := List.mem_map.1 hmem
      exact heq ▸ hbody q hq
    · obtain ⟨q, hq, heq⟩ := List.mem_map.1 hmem
      exact heq ▸ hbound hole b hb hno q hq

/-- A template is what is made of its parts. -/
theorem make_eq_self (t : Template) : make t.name t.holes t.body = .ok t := by
  unfold make
  split
  · rfl
  · rename_i e he
    cases t.checked.symm.trans he

/-- The number one behind a name is a part of it, unless the name is a sign. -/
theorem rereads_of_instantiate_behind :
    let body : Fragment :=
      ⟨.node [.leaf (.sym "${n}1") ⟨1, 6⟩, .leaf (.sym "$n") ⟨7, 9⟩] ⟨0, 10⟩, ⟨"b", "(${n}1 $n)"⟩⟩
    let t : Template := ⟨"t", .ofList [("n", .ident)], body, by decide +kernel⟩
    let es : List (String × Binding) := [("n", .ident "x")]
    let f : Fragment :=
      ⟨.node [.leaf (.sym "x1") ⟨1, 6⟩, .leaf (.sym "x") ⟨7, 9⟩] ⟨0, 10⟩, ⟨"b", "(${n}1 $n)"⟩⟩
    t.Composed ∧ t.instantiate (.ofList es) = .ok f ∧ t.Rereads (.ofList es) f := by
  intro body t es f
  have hbody : Fragment.readExpr "b" "(${n}1 $n)" = .ok body := by
    rw [Fragment.readExpr, @readForms_eq _ "(${n}1 $n)".toList rfl]
    rfl
  have ht : t.Composed := .made (.expr hbody) (make_eq_self t)
  exact ⟨ht, by rfl, rereads_of_instantiate ht (by rfl)⟩

/-- A sign in front of a number makes another number of it, and the word for a truth value passes
for a name. -/
theorem coined_literals :
    let body : Fragment :=
      ⟨.node [.leaf (.sym "${n}1") ⟨1, 6⟩, .leaf (.sym "$m") ⟨7, 9⟩] ⟨0, 10⟩, ⟨"b", "(${n}1 $m)"⟩⟩
    let t : Template := ⟨"t", .ofList [("m", .ident), ("n", .ident)], body, by decide +kernel⟩
    let es : List (String × Binding) := [("m", .ident "true"), ("n", .ident "-")]
    let f : Fragment :=
      ⟨.node [.leaf (.sym "-1") ⟨1, 6⟩, .leaf (.sym "true") ⟨7, 9⟩] ⟨0, 10⟩, ⟨"b", "(${n}1 $m)"⟩⟩
    let u : Tree := .node [.leaf (.int (-1)) ⟨1, 3⟩, .leaf (.bool true) ⟨4, 8⟩] ⟨0, 9⟩
    t.Composed ∧ t.instantiate (.ofList es) = .ok f ∧ t.CoinedBy (.ofList es) "true" ∧
      t.CoinedBy (.ofList es) "-1" ∧
      readForms "true" = .ok [.leaf (.bool true) ⟨0, 4⟩] ∧
      readForms "-1" = .ok [.leaf (.int (-1)) ⟨0, 2⟩] ∧
      readForms f.root.render = .ok [u] ∧ u.alike f.root = false := by
  intro body t es f u
  have hbody : Fragment.readExpr "b" "(${n}1 $m)" = .ok body := by
    rw [Fragment.readExpr, @readForms_eq _ "(${n}1 $m)".toList rfl]
    rfl
  refine ⟨.made (.expr hbody) (make_eq_self t), by rfl, ?_, ?_, ?_, ?_, ?_, by rfl⟩
  · refine ⟨("$m", ⟨7, 9⟩), by decide, .whole rfl (by decide) (by rfl)⟩
  · refine ⟨("${n}1", ⟨1, 6⟩), by decide, ?_⟩
    have hrest : Pastes (.ofList es) ['1'] ['1'] := .keep (by decide) .finish
    have hout : Pastes (.ofList es) "${n}1".toList ['-', '1'] :=
      @Pastes.paste _ ['n'] ['1'] ['1'] "-" rfl rfl hrest
    exact .pasted (fun hole heq => by cases heq; rfl) ⟨[], _, rfl⟩ hout
  · rw [@readForms_eq _ "true".toList rfl]
    rfl
  · rw [@readForms_eq _ "-1".toList rfl]
    rfl
  · rw [@readForms_eq _ "(-1 true)".toList (by rfl)]
    rfl

end Template

end Kiln
