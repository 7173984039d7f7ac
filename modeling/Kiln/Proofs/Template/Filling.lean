import Kiln.Proofs.NameMap
import Kiln.Proofs.Template.Substitution
import Kiln.Proofs.Tree.Printing
/-!
# What an instance of a template is

`Filled` says of two trees, without saying how either is computed, that one is the other with every
hole filled: a symbol that is a hole gives way to the whole tree that is bound, a hole pasted into a
symbol to the name that is, and all else stays. There is no rule that leaves a hole in its place,
and none that looks for holes in what was bound. A template whose body passed its check has exactly
one such tree for bindings that fit (`Template.Fits`), and that is its instance
(`Template.instantiate_fills`): the check of the body and the filling of its holes take symbols
apart alike.
-/

namespace Kiln

namespace Template

variable {bindings : Bindings}

/-! ## Filling holes -/

/-- What is written in a symbol, with the holes that are pasted into it filled. -/
inductive Pastes (bindings : Bindings) : List Char → List Char → Prop
  /-- At the end nothing is left. -/
  | finish : Pastes bindings [] []
  /-- A character that opens no hole is kept. -/
  | keep {c : Char} {cs out : List Char} (hplain : ¬['$', '\x7b'] <+: c :: cs) :
      Pastes bindings cs out → Pastes bindings (c :: cs) (c :: out)
  /-- A hole gives way to the name that fills it. -/
  | paste {name cs out : List Char} {value : String} (hname : isHoleName name = true)
      (hvalue : bindings.find? (String.ofList name) = some (.ident value)) :
      Pastes bindings cs out →
      Pastes bindings ('$' :: '\x7b' :: (name ++ '\x7d' :: cs)) (value.toList ++ out)

/-- A tree, and that tree with every hole filled. -/
inductive Filled (bindings : Bindings) : Tree → Tree → Prop
  /-- A symbol that is a hole gives way to the whole tree that fills it. -/
  | hole {symbol : String} {name : List Char} {b : Binding} {s : Span}
      (hsymbol : symbol.toList = '$' :: name) (hname : isHoleName name = true)
      (hb : bindings.find? (String.ofList name) = some b) :
      Filled bindings (.leaf (.sym symbol) s) (b.toTree s)
  /-- Any other symbol has the holes filled that are pasted into it. -/
  | symbol {symbol : String} {out : List Char} {s : Span}
      (hother : ∀ name, symbol.toList = '$' :: name → isHoleName name = false)
      (hout : Pastes bindings symbol.toList out) :
      Filled bindings (.leaf (.sym symbol) s) (.leaf (.sym (String.ofList out)) s)
  /-- What is no symbol is kept. -/
  | atom {a : Atom} {s : Span} (ha : ∀ symbol, a ≠ .sym symbol) :
      Filled bindings (.leaf a s) (.leaf a s)
  /-- The items of a list are filled, each in its place. -/
  | node {items items' : List Tree} {s : Span}
      (hitems : List.Forall₂ (Filled bindings) items items') :
      Filled bindings (.node items s) (.node items' s)

/-! ## There is one way to fill holes -/

/-- The name of a hole is made of letters, digits and underscores. -/
theorem not_mem_of_isHoleName {name : List Char} {c : Char} (h : isHoleName name = true)
    (hc : (c.isAlphanum || c == '_') = false) : c ∉ name := by
  intro hmem
  rw [isHoleName, Bool.and_eq_true, Bool.and_eq_true, List.all_eq_true] at h
  have hletter := h.1.2 c hmem
  rw [hc] at hletter
  cases hletter

/-- The name of a hole ends at the first closing brace. -/
theorem not_mem_holeName {name : List Char} (h : isHoleName name = true) : '\x7d' ∉ name :=
  not_mem_of_isHoleName h (by decide)

theorem append_cons_inj {α : Type} {c : α} : ∀ {as bs as' bs' : List α}, c ∉ as → c ∉ bs →
    as ++ c :: as' = bs ++ c :: bs' → as = bs ∧ as' = bs'
  | [], [], _, _, _, _, h => ⟨rfl, List.tail_eq_of_cons_eq h⟩
  | [], b :: _, _, _, _, hb, h => absurd (List.head_eq_of_cons_eq h ▸ List.mem_cons_self) hb
  | a :: _, [], _, _, ha, _, h => absurd (List.head_eq_of_cons_eq h ▸ List.mem_cons_self) ha
  | a :: as, b :: bs, _, _, ha, hb, h => by
    obtain ⟨rfl, htail⟩ := append_cons_inj (fun hm => ha (List.mem_cons_of_mem a hm))
      (fun hm => hb (List.mem_cons_of_mem b hm)) (List.tail_eq_of_cons_eq h)
    exact ⟨by rw [List.head_eq_of_cons_eq h], htail⟩

theorem prefix_hole (name cs : List Char) :
    ['$', '\x7b'] <+: '$' :: '\x7b' :: (name ++ '\x7d' :: cs) :=
  ⟨name ++ '\x7d' :: cs, rfl⟩

theorem Pastes.unique {cs out : List Char} (h : Pastes bindings cs out) :
    ∀ {out' : List Char}, Pastes bindings cs out' → out = out' := by
  induction h with
  | finish =>
    intro out' h'
    cases h'
    rfl
  | keep hplain _ ih =>
    intro out' h'
    cases h' with
    | keep _ h' => rw [ih h']
    | paste => exact absurd (prefix_hole _ _) hplain
  | paste hname hvalue _ ih =>
    intro out' h'
    generalize heq : '$' :: '\x7b' :: (_ ++ '\x7d' :: _) = written at h'
    cases h' with
    | finish => cases heq
    | keep hplain => exact absurd (heq ▸ prefix_hole _ _) hplain
    | paste hname' hvalue' h' =>
      -- both holes end at the first brace, so they have one name and one value
      obtain ⟨rfl, rfl⟩ := append_cons_inj (not_mem_holeName hname) (not_mem_holeName hname')
        (List.tail_eq_of_cons_eq (List.tail_eq_of_cons_eq heq))
      rw [hvalue] at hvalue'
      cases hvalue'
      rw [ih h']

theorem forall₂_unique {α β : Type} {R : α → β → Prop} : ∀ {as : List α} {bs bs' : List β},
    (∀ a ∈ as, ∀ {b b'}, R a b → R a b' → b = b') → List.Forall₂ R as bs →
    List.Forall₂ R as bs' → bs = bs'
  | [], _, _, _, .nil, .nil => rfl
  | a :: _, _, _, hR, .cons h hs, .cons h' hs' => by
    rw [hR a List.mem_cons_self h h',
      forall₂_unique (fun a ha => hR a (List.mem_cons_of_mem _ ha)) hs hs']

/-- **A tree has at most one filling.** -/
theorem Filled.unique {t : Tree} :
    ∀ {r r' : Tree}, Filled bindings t r → Filled bindings t r' → r = r' := by
  induction t using Tree.inductItems with
  | leaf a s =>
    intro r r' h h'
    cases h with
    | hole hsymbol hname hb =>
      cases h' with
      | hole hsymbol' _ hb' =>
        rw [hsymbol] at hsymbol'
        cases hsymbol'
        rw [hb] at hb'
        cases hb'
        rfl
      | symbol hother _ => exact absurd hname (Bool.eq_false_iff.1 (hother _ hsymbol))
      | atom ha => exact absurd rfl (ha _)
    | symbol hother hout =>
      cases h' with
      | hole hsymbol hname _ => exact absurd hname (Bool.eq_false_iff.1 (hother _ hsymbol))
      | symbol _ hout' => rw [hout.unique hout']
      | atom ha => exact absurd rfl (ha _)
    | atom ha =>
      cases h' with
      | hole => exact absurd rfl (ha _)
      | symbol => exact absurd rfl (ha _)
      | atom => rfl
  | node items s ih =>
    intro r r' h h'
    cases h with
    | node hitems =>
      cases h' with
      | node hitems' => rw [forall₂_unique ih hitems hitems']

/-! ## What is computed fills the holes -/

/-- The bindings have what the use of a hole asks for: a value, and a name if the hole is pasted. -/
def Serves (bindings : Bindings) (use : String × Bool) : Prop :=
  ∃ b, bindings.find? use.1 = some b ∧ (use.2 = true → ∃ value, b = .ident value)

/-- What the rest of a symbol comes to after the characters `run`, be they text or the first of a
hole's name. -/
def Completes (bindings : Bindings) : Bool → List Char → List Char → List Char → Prop
  | false, run, cs, out => ∃ after, out = run.reverse ++ after ∧ Pastes bindings cs after
  | true, run, cs, out => ∃ (name rest : List Char) (value : String) (after : List Char),
      cs = name ++ '\x7d' :: rest ∧ out = value.toList ++ after ∧
      isHoleName (run.reverse ++ name) = true ∧
      bindings.find? (String.ofList (run.reverse ++ name)) = some (.ident value) ∧
        Pastes bindings rest after

theorem flatMap_textPiece (run : List Char) :
    (textPiece run).flatMap (pieceText bindings) = run.reverse := by
  rw [textPiece]
  split
  · rename_i hempty
    rw [List.isEmpty_iff.1 hempty]
    rfl
  · rw [List.flatMap_singleton, pieceText]

theorem pieceText_hole {name value : String} (h : bindings.find? name = some (.ident value)) :
    pieceText bindings (.hole name) = value.toList := by
  rw [pieceText, h]

/-- **The pieces of a symbol come to that symbol with its holes filled.** -/
theorem completes_of_piecesFrom {symbol : String} {inHole : Bool} {run cs : List Char}
    {pieces : List Piece} (h : piecesFrom symbol inHole run cs = .ok pieces)
    (hserved : ∀ name, .hole name ∈ pieces → Serves bindings (name, true)) :
    Completes bindings inHole run cs (pieces.flatMap (pieceText bindings)) := by
  fun_induction piecesFrom symbol inHole run cs generalizing pieces with
  | case1 => cases h
  | case2 inHole run hin =>
    cases h
    obtain rfl := Bool.eq_false_iff.2 hin
    exact ⟨[], by rw [flatMap_textPiece, List.append_nil], .finish⟩
  | case3 run rest ih =>
    -- a name that goes on with an opening is none, but that shows at its end
    obtain ⟨name, cs, value, after, rfl, hout, hname, hvalue, hafter⟩ := ih h hserved
    simp only [List.reverse_cons, List.append_assoc, List.cons_append, List.nil_append]
      at hname hvalue
    exact ⟨'$' :: '\x7b' :: name, cs, value, after, rfl, hout, hname, hvalue, hafter⟩
  | case4 inHole run rest hin ih =>
    obtain rfl := Bool.eq_false_iff.2 hin
    obtain ⟨pieces, hpieces, rfl⟩ := ok_of_map h
    obtain ⟨name, cs, value, after, rfl, hout, hname, hvalue, hafter⟩ :=
      ih hpieces fun name hmem => hserved name (List.mem_append_right _ hmem)
    refine ⟨value.toList ++ after, ?_, .paste hname hvalue hafter⟩
    rw [List.flatMap_append, flatMap_textPiece, hout]
  | case5 inHole run c rest _ hclose hname ih =>
    rw [Bool.and_eq_true, beq_iff_eq] at hclose
    obtain ⟨rfl, rfl⟩ := hclose
    obtain ⟨pieces, hpieces, rfl⟩ := ok_of_map h
    obtain ⟨b, hb, hident⟩ := hserved _ List.mem_cons_self
    obtain ⟨value, rfl⟩ := hident rfl
    obtain ⟨after, hout, hafter⟩ :=
      ih hpieces fun name hmem => hserved name (List.mem_cons_of_mem _ hmem)
    refine ⟨[], rest, value, after, rfl, ?_, ?_, ?_, hafter⟩
    · rw [List.flatMap_cons, hout, pieceText_hole hb]
      rfl
    · rwa [List.append_nil]
    · rwa [List.append_nil]
  | case6 => cases h
  | case7 inHole run c rest hopens hclose ih =>
    have hrest := ih h hserved
    cases inHole with
    | false =>
      obtain ⟨after, hout, hafter⟩ := hrest
      refine ⟨c :: after, by rw [hout, List.reverse_cons, List.append_assoc]; rfl, .keep ?_ hafter⟩
      rintro ⟨more, heq⟩
      injection heq with hc hmore
      exact hopens more hc.symm hmore.symm
    | true =>
      obtain ⟨name, cs, value, after, rfl, hout, hname, hvalue, hafter⟩ := hrest
      simp only [List.reverse_cons, List.append_assoc, List.cons_append, List.nil_append]
        at hname hvalue
      exact ⟨c :: name, cs, value, after, rfl, hout, hname, hvalue, hafter⟩

/-- A symbol that opens no hole is kept. -/
theorem pastes_self : ∀ {cs : List Char}, opensHole cs = false → Pastes bindings cs cs
  | [], _ => .finish
  | c :: cs, h => by
    have hplain : ¬['$', '\x7b'] <+: c :: cs := by
      rintro ⟨more, heq⟩
      rw [← heq] at h
      cases h
    refine .keep hplain (pastes_self ?_)
    rw [opensHole] at h
    · exact h
    · intro more hc hmore
      exact hplain ⟨more, by rw [hc, hmore]; rfl⟩

/-- What takes the place of a symbol is that symbol filled, if the bindings serve its holes. -/
theorem filled_substituteSymbol {symbol : String} {shape : SymbolShape}
    (hshape : symbolShape symbol = .ok shape)
    (hserved : ∀ use ∈ shape.holes, Serves bindings use) (s : Span) :
    Filled bindings (.leaf (.sym symbol) s) (substituteSymbol bindings symbol s) := by
  -- a symbol with a dollar sign in front that is no hole is taken apart like any other
  have hpasted : ∀ cs, symbol.toList = cs → (∀ name, cs = '$' :: name → isHoleName name = false) →
      symbolShape.pastedShape symbol cs = .ok shape →
      Filled bindings (.leaf (.sym symbol) s) (substituteSymbol bindings symbol s) := by
    rintro _ rfl hother hpasted
    rw [symbolShape.pastedShape] at hpasted
    split at hpasted
    · obtain ⟨pieces, hpieces, rfl⟩ := ok_of_map hpasted
      obtain ⟨out, hout, hpastes⟩ := completes_of_piecesFrom hpieces fun name hmem =>
        hserved (name, true) (List.mem_filterMap.2 ⟨_, hmem, rfl⟩)
      rw [substituteSymbol, hshape]
      dsimp only
      rw [hout]
      exact .symbol hother hpastes
    · rename_i hopens
      cases hpasted
      have hself : Pastes bindings symbol.toList symbol.toList :=
        pastes_self (Bool.eq_false_iff.2 hopens)
      have hkept := Filled.symbol (s := s) hother hself
      rw [String.ofList_toList] at hkept
      rwa [substituteSymbol, hshape]
  have hcases := hshape
  rw [symbolShape] at hcases
  split at hcases
  · rename_i name hsymbol
    split at hcases
    · rename_i hname
      cases hcases
      obtain ⟨b, hb, -⟩ := hserved _ (List.mem_singleton_self _)
      rw [substituteSymbol_hole hshape hb]
      exact .hole hsymbol hname hb
    · rename_i hname
      refine hpasted _ hsymbol (fun other heq => ?_) hcases
      cases heq
      exact Bool.eq_false_iff.2 hname
  · rename_i hother
    exact hpasted _ rfl (fun name heq => absurd heq (hother name)) hcases

/-- **What is computed is the tree with every hole filled**, if the bindings serve every hole of
it. -/
theorem filled_substitute {t : Tree}
    (hserved : ∀ p ∈ t.symbols,
      ∃ shape, symbolShape p.1 = .ok shape ∧ ∀ use ∈ shape.holes, Serves bindings use) :
    Filled bindings t (substitute bindings t) := by
  induction t using Tree.inductItems with
  | leaf a s =>
    cases a with
    | sym symbol =>
      obtain ⟨shape, hshape, hholes⟩ := hserved (symbol, s) List.mem_cons_self
      exact filled_substituteSymbol hshape hholes s
    | _ => exact .atom (by rintro _ ⟨⟩)
  | node items s ih =>
    rw [Tree.symbols, Tree.symbolsAll_eq_flatMap] at hserved
    rw [substitute, substituteAll_eq_map]
    refine .node
      (List.forall₂_map_right_iff.2 (List.forall₂_same.2 fun t ht => ih t ht fun p hp => ?_))
    exact hserved p (List.mem_flatMap.2 ⟨t, ht, hp⟩)

/-! ## Parts and their spans -/

theorem span_of_partOf_respan {s : Span} {t u : Tree} (h : u.PartOf (t.respan s)) : u.span = s := by
  induction t using Tree.inductItems with
  | leaf a s' =>
    cases h
    rfl
  | node items s' ih =>
    rw [Tree.respan, Tree.respanAll_eq_map] at h
    cases h with
    | whole => rfl
    | item hu hpart =>
      obtain ⟨t, ht, rfl⟩ := List.mem_map.1 hu
      exact ih t ht hpart

/-- What fills a hole is at the place of the hole throughout. -/
theorem span_of_partOf_toTree {b : Binding} {s : Span} {u : Tree} (h : u.PartOf (b.toTree s)) :
    u.span = s := by
  cases b with
  | ident name =>
    cases h
    rfl
  | type t => exact span_of_partOf_respan h
  | fragment f => exact span_of_partOf_respan h

/-- **A filled tree has no spans but those of the tree.** -/
theorem Filled.span_of_partOf {t : Tree} : ∀ {r u : Tree}, Filled bindings t r → u.PartOf r →
    ∃ v : Tree, v.PartOf t ∧ v.span = u.span := by
  induction t using Tree.inductItems with
  | leaf a s =>
    intro r u hfilled hpart
    refine ⟨.leaf a s, .whole _, ?_⟩
    cases hfilled with
    | hole => exact (span_of_partOf_toTree hpart).symm
    | symbol =>
      cases hpart
      rfl
    | atom =>
      cases hpart
      rfl
  | node items s ih =>
    intro r u hfilled hpart
    cases hfilled with
    | node hitems =>
      cases hpart with
      | whole => exact ⟨.node items s, .whole _, rfl⟩
      | item hu hpart =>
        obtain ⟨t, ht, hfilled⟩ := exists_of_forall₂ hitems hu
        obtain ⟨v, hv, hspan⟩ := ih t ht hfilled hpart
        exact ⟨v, .item ht hv, hspan⟩

/-! ## Like bindings -/

end Template

/-- Bindings that are the same, spans apart. -/
inductive Binding.Alike : Binding → Binding → Prop
  | ident (name : String) : Alike (.ident name) (.ident name)
  | type {t u : TypeExpr} (h : t.tree.alike u.tree = true) : Alike (.type t) (.type u)
  | fragment {f g : Fragment} (h : f.root.alike g.root = true) : Alike (.fragment f) (.fragment g)

/-- The same names, with bindings that are alike. -/
def Bindings.Alike (bindings others : Bindings) : Prop :=
  ∀ name, Option.Rel Binding.Alike (bindings.find? name) (others.find? name)

namespace Template

variable {others : Bindings}

theorem toTree_congr {b c : Binding} (h : b.Alike c) (s : Span) : b.toTree s = c.toTree s := by
  cases h with
  | ident => rfl
  | type h => exact Tree.respan_eq_of_alike s h
  | fragment h => exact Tree.respan_eq_of_alike s h

theorem pieceText_congr (h : bindings.Alike others) (p : Piece) :
    pieceText bindings p = pieceText others p := by
  cases p with
  | text => rfl
  | hole name =>
    have hname := h name
    rw [pieceText, pieceText]
    generalize bindings.find? name = found at hname ⊢
    generalize others.find? name = found' at hname ⊢
    cases hname with
    | none => rfl
    | some halike =>
      cases halike with
      | ident => rfl
      | type => rfl
      | fragment => rfl

theorem substituteSymbol_congr (h : bindings.Alike others) (symbol : String) (s : Span) :
    substituteSymbol bindings symbol s = substituteSymbol others symbol s := by
  rw [substituteSymbol, substituteSymbol]
  split
  · rename_i name _
    have hname := h name
    generalize bindings.find? name = found at hname ⊢
    generalize others.find? name = found' at hname ⊢
    cases hname with
    | none => rfl
    | some halike => exact toTree_congr halike s
  · rw [funext (pieceText_congr h)]
  · rfl

/-- **Bindings that are alike fill a tree alike**: what fills a hole has no span of its own. -/
theorem substitute_congr (h : bindings.Alike others) (t : Tree) :
    substitute bindings t = substitute others t := by
  induction t using Tree.inductItems with
  | leaf a s =>
    cases a with
    | sym symbol => exact substituteSymbol_congr h symbol s
    | _ => rfl
  | node items s ih =>
    rw [substitute, substitute, substituteAll_eq_map, substituteAll_eq_map, List.map_congr_left ih]

/-! ## Bindings that fit -/

/-- Bindings fit a template: they bind what it declares. -/
structure Fits (t : Template) (bindings : Bindings) : Prop where
  /-- The names that are bound are the holes that are declared. -/
  names : ∀ name, bindings.contains name = t.holes.contains name
  /-- Each hole is bound to a value of its kind. -/
  kinds : ∀ name b, bindings.find? name = some b → t.holes.find? name = some b.kind
  /-- What fills a hole for names is a symbol, and holds no hole itself. -/
  symbols :
    ∀ name value, bindings.find? name = some (.ident value) → isSymbol value = true ∧
      '$' ∉ value.toList

/-- What an instance is. -/
structure Fills (t : Template) (bindings : Bindings) (f : Fragment) : Prop where
  /-- It comes from the text of the template. -/
  origin : f.origin = t.body.origin
  /-- It is the body with every hole filled. -/
  root : ∀ r, Filled bindings t.body.root r ↔ r = f.root
  /-- Each part of it is where a part of the body is. -/
  spans : ∀ u : Tree, u.PartOf f.root → ∃ v : Tree, v.PartOf t.body.root ∧ v.span = u.span
  /-- A template with a body that is alike has an instance that is alike, for bindings that are. -/
  alike :
    ∀ (t' : Template) (es : List (String × Binding)) (f' : Fragment),
      t.body.root.alike t'.body.root = true →
    bindings.Alike (.ofList es) → t'.instantiate (.ofList es) = .ok f' → f.root.alike f'.root = true

theorem isFillingName_iff {value : String} :
    isFillingName value = true ↔ isSymbol value = true ∧ '$' ∉ value.toList := by
  rw [isFillingName, Bool.and_eq_true, Bool.not_eq_true', ← List.contains_iff_mem, Bool.not_eq_true]

/-- A binding passes its check if it has the kind of a hole, and is a name that can fill one if it
is a name. -/
theorem checkBinding_ok_iff {t : Template} {name : String} {b : Binding} :
    t.checkBinding (name, b) = .ok () ↔
    t.holes.find? name = some b.kind ∧
      ∀ value, b = .ident value → isSymbol value = true ∧ '$' ∉ value.toList := by
  rw [checkBinding]
  cases hkind : t.holes.find? name with
  | none => exact iff_of_false (by rintro ⟨⟩) (by rintro ⟨⟨⟩, _⟩)
  | some kind =>
    dsimp only
    split
    · rename_i hne
      exact iff_of_false (by rintro ⟨⟩) fun ⟨heq, _⟩ => hne (Option.some.inj heq).symm
    · rename_i heq
      rw [Decidable.not_not] at heq
      rw [heq, and_iff_right rfl]
      cases b with
      | ident value =>
        dsimp only
        split
        · rename_i hvalue
          exact iff_of_true rfl fun _ h => (Binding.ident.inj h) ▸ isFillingName_iff.1 hvalue
        · rename_i hvalue
          exact iff_of_false (by rintro ⟨⟩) fun h => hvalue (isFillingName_iff.2 (h value rfl))
      | _ => exact iff_of_true rfl (by rintro _ ⟨⟩)

theorem checkBound_ok_iff {t : Template} {name : String} :
    t.checkBound bindings name = .ok () ↔ bindings.contains name = true := by
  rw [checkBound]
  split
  · rename_i h
    exact iff_of_true rfl h
  · rename_i h
    exact iff_of_false (by rintro ⟨⟩) h

theorem instantiate_ok_iff {t : Template} {f : Fragment} : t.instantiate bindings = .ok f ↔
    (∀ e ∈ bindings.entries, t.checkBinding e = .ok ()) ∧
      (∀ name ∈ t.holes.names, bindings.contains name = true) ∧
      f = ⟨substitute bindings t.body.root, t.body.origin⟩ := by
  rw [← forM_ok_iff, ← forall₂_congr fun name _ => checkBound_ok_iff (t := t), ← forM_ok_iff]
  constructor
  · intro h
    obtain ⟨⟨⟩, hbindings, h⟩ := ok_of_bind h
    obtain ⟨⟨⟩, hholes, h⟩ := ok_of_bind h
    cases h
    exact ⟨hbindings, hholes, rfl⟩
  · rintro ⟨hbindings, hholes, rfl⟩
    rw [instantiate]
    show (bindings.entries.forM t.checkBinding >>= fun _ => _) = _
    rw [hbindings]
    show (t.holes.names.forM (t.checkBound bindings) >>= fun _ => _) = _
    rw [hholes]
    rfl

/-- **There is an instance just if the bindings fit.** -/
theorem exists_instance_iff {t : Template} {es : List (String × Binding)} :
    (∃ f, t.instantiate (.ofList es) = .ok f) ↔ t.Fits (.ofList es) := by
  simp only [instantiate_ok_iff, exists_and_left, exists_eq, and_true]
  constructor
  · rintro ⟨hentries, hholes⟩
    -- every binding is an entry, so it has passed its check
    have hentry : ∀ name b, (NameMap.ofList es).find? name = some b → _ := fun name b hb =>
      checkBinding_ok_iff.1 (hentries _ ((NameMap.sorted_ofList _).mem_entries_iff.2 hb))
    exact {
      names := fun name => Bool.eq_iff_iff.2 ⟨fun h => by
          obtain ⟨b, hb⟩ := Option.isSome_iff_exists.1 h
          exact Option.isSome_iff_exists.2 ⟨_, (hentry name b hb).1⟩,
        fun h => hholes name (NameMap.mem_names.2 h)⟩
      kinds := fun name b hb => (hentry name b hb).1
      symbols := fun name value hb => (hentry name _ hb).2 value rfl }
  · intro hfits
    refine ⟨fun ⟨name, b⟩ he => ?_,
      fun name hname => (hfits.names name).trans (NameMap.mem_names.1 hname)⟩
    have hb := (NameMap.sorted_ofList _).mem_entries_iff.1 he
    exact checkBinding_ok_iff.2
      ⟨hfits.kinds name b hb, fun value h => hfits.symbols name value (h ▸ hb)⟩

/-- **Bindings that fit serve every hole of the body**, as the body was checked against the same
declarations. -/
theorem Fits.serves {t : Template} (h : t.Fits bindings) : ∀ p ∈ t.body.root.symbols,
    ∃ shape, symbolShape p.1 = .ok shape ∧ ∀ use ∈ shape.holes, Serves bindings use := by
  intro p hp
  -- a template carries the proof that its body passed the check, so every symbol did
  have hsymbol := ok_of_mapError (forM_ok_iff.1 t.checked p hp)
  obtain ⟨shape, hshape, hholes⟩ := ok_of_bind hsymbol
  refine ⟨shape, hshape, fun use huse => ?_⟩
  have hhole := forM_ok_iff.1 hholes use huse
  rw [checkHole] at hhole
  split at hhole
  · cases hhole
  · rename_i kind hkind
    split at hhole
    · cases hhole
    · rename_i hpasted
      -- the hole is declared, so it is bound, and to a name if it is one for names
      have hbound : bindings.contains use.1 = true := by
        rw [h.names, NameMap.contains, hkind]
        rfl
      obtain ⟨b, hb⟩ := Option.isSome_iff_exists.1 hbound
      refine ⟨b, hb, fun htrue => ?_⟩
      rw [htrue, Bool.true_and, decide_eq_true_eq, Decidable.not_not] at hpasted
      have hident : b.kind = .ident :=
        Option.some.inj ((h.kinds _ b hb).symm.trans (hpasted ▸ hkind))
      cases b with
      | ident value => exact ⟨value, rfl⟩
      | _ => cases hident

/-- An instance is the body with every hole filled. -/
theorem filled_of_instantiate {t : Template} {es : List (String × Binding)} {f : Fragment}
    (h : t.instantiate (.ofList es) = .ok f) : Filled (.ofList es) t.body.root f.root := by
  have hfits := exists_instance_iff.1 ⟨f, h⟩
  obtain ⟨-, -, rfl⟩ := instantiate_ok_iff.1 h
  exact filled_substitute hfits.serves

/-- **A template has an instance just if the bindings fit it, and that is its body with every hole
filled.** No hole is left in its place, no hole is looked for in what fills one, and nothing else
changes. -/
theorem instantiate_fills (t : Template) (es : List (String × Binding)) :
    ((∃ f, t.instantiate (.ofList es) = .ok f) ↔ t.Fits (.ofList es)) ∧
      ∀ f, t.instantiate (.ofList es) = .ok f → t.Fills (.ofList es) f := by
  refine ⟨exists_instance_iff, fun f hf => ?_⟩
  have hfilled := filled_of_instantiate hf
  obtain ⟨-, -, rfl⟩ := instantiate_ok_iff.1 hf
  exact {
    origin := rfl
    root := fun r => ⟨fun hr => hr.unique hfilled, fun hr => hr ▸ hfilled⟩
    spans := fun u hu => hfilled.span_of_partOf hu
    alike := fun t' es' f' hbody hbindings hf' => by
      obtain ⟨-, -, rfl⟩ := instantiate_ok_iff.1 hf'
      rw [substitute_congr hbindings]
      exact Tree.alike_of_respan_eq default (substitute_alike hbody) }

/-- A name is pasted into one symbol, and a tree takes the place of another; a hole in that tree is
left alone. -/
theorem instantiate_fills_once :
    let body : Fragment :=
      ⟨.node [.leaf (.sym "${n}_size") ⟨1, 10⟩, .leaf (.sym "$v") ⟨11, 13⟩] ⟨0, 14⟩, default⟩
    let t : Template := ⟨"t", .ofList [("v", .fragment), ("n", .ident)], body, by decide +kernel⟩
    let filler : Fragment := ⟨.node [.leaf (.sym "$n") ⟨3, 5⟩] ⟨2, 6⟩, default⟩
    let es : List (String × Binding) := [("v", .fragment filler), ("n", .ident "map")]
    let filled : Tree := .node [.leaf (.sym "$n") ⟨11, 13⟩] ⟨11, 13⟩
    let f : Fragment := ⟨.node [.leaf (.sym "map_size") ⟨1, 10⟩, filled] ⟨0, 14⟩, default⟩
    t.instantiate (.ofList es) = .ok f ∧ t.Fills (.ofList es) f :=
  ⟨by rfl, (instantiate_fills _ _).2 _ (by rfl)⟩

end Template

end Kiln
