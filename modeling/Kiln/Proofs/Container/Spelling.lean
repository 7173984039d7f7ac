import Kiln.Proofs.Container.Indexed
/-!
# Types that are spelled in full

A tree spells a type in full if it is made with `ptr` and `seq` from a word that names a type by
itself. Every unit means that type by it (`Tree.Spells.resolveType`), and means nothing by any other
tree whose words are too short to be names of structs (`spells_of_resolveType`). The mangled form
joins words with underscores and has no brackets, but no word of the language's own types holds an
underscore or opens as `ptr` or `seq` do. So types that are spelled in full are told apart by it
(`Tree.Spells.alike_of_mangleTree_eq`).
-/

namespace Kiln

/-- The tree is made with `ptr` and `seq` from a word that names a type by itself, and so spells a
type. -/
inductive Tree.Spells : Tree → Ty → Prop
  | word {name : String} {s : Span} {t : Ty} : Ty.primitive? name = some t →
      Spells (.leaf (.sym name) s) t
  | ptr {head inner : Tree} {s : Span} {t : Ty} : head.symbol? = some "ptr" → Spells inner t →
      Spells (.node [head, inner] s) (.ptr t)
  | seq {head inner : Tree} {s : Span} {t : Ty} : head.symbol? = some "seq" → Spells inner t →
      Spells (.node [head, inner] s) (.seq t)

namespace Tree.Spells

variable {tree tree' : Tree} {t t' : Ty}

/-- **Every unit means the type by the tree.** -/
theorem resolveType (h : tree.Spells t) (names : Names) : names.resolveType tree = .ok t := by
  induction h with
  | word h => rw [Names.resolveType, Names.type?, h]
  | ptr hhead _ ih =>
    rw [Names.resolveType, if_pos hhead, ih]
    rfl
  | seq hhead _ ih =>
    rw [Names.resolveType, if_neg (by rw [hhead]; decide), if_pos hhead, ih]
    rfl

/-- It is no struct. -/
theorem ne_struct (h : tree.Spells t) (ref : StructRef) : t ≠ .struct ref := by
  rintro rfl
  cases h with
  | word h =>
    unfold Ty.primitive? at h
    split at h <;> cases h

end Tree.Spells

/-- **Where short names are those of the language's own types alone, a tree of short names that
means a type spells it in full.** -/
theorem spells_of_resolveType {names : Names} {n : Nat}
    (hnames : ∀ s : String, s.length < n → names.type? s = Ty.primitive? s) {tree : Tree} :
    ∀ {t : Ty}, names.resolveType tree = .ok t → (TypeExpr.mangleTree tree).length < n →
      tree.Spells t := by
  induction tree using Tree.inductItems with
  | leaf a s =>
    intro t h hlt
    cases a with
    | sym name =>
      unfold Names.resolveType at h
      rw [hnames name hlt] at h
      split at h
      · rename_i found hfound
        cases h
        exact .word hfound
      · cases h
    | int _ | bool _ | str _ => cases h
  | node items s ih =>
    intro t h hlt
    rcases items with _ | ⟨head, _ | ⟨inner, _ | ⟨_, _⟩⟩⟩
    · cases h
    · cases h
    · have hinner := Nat.lt_of_le_of_lt (TypeExpr.length_mangleTree_le head inner s) hlt
      have hmem : inner ∈ [head, inner] := List.mem_cons_of_mem head List.mem_cons_self
      unfold Names.resolveType at h
      split at h
      · rename_i hhead
        obtain ⟨u, hu, rfl⟩ := ok_of_map h
        exact .ptr hhead (ih inner hmem hu hinner)
      · split at h
        · rename_i hhead
          obtain ⟨u, hu, rfl⟩ := ok_of_map h
          exact .seq hhead (ih inner hmem hu hinner)
        · cases h
    · cases h

/-! ## Mangled forms -/

namespace TypeExpr

/-- No word for a type holds an underscore. -/
theorem not_mem_of_primitive? {name : String} {t : Ty} (h : Ty.primitive? name = some t) :
    '_' ∉ name.toList := by
  unfold Ty.primitive? at h
  split at h
  all_goals first | decide | cases h

theorem toList_mangleTree_node {head inner : Tree} {s : Span} {word : String}
    (hhead : head.symbol? = some word) :
    (mangleTree (.node [head, inner] s)).toList = word.toList ++
    '_' :: (mangleTree inner).toList := by
  have hjoined : mangleTree (.node [head, inner] s) = mangleTree head ++ "_" ++
      mangleTree inner := rfl
  have hword : mangleTree head = word := by
    rcases head with ⟨_ | _ | _ | name, _⟩ | _
    case leaf.sym => exact Option.some.inj hhead
    all_goals cases hhead
  have hunderscore : "_".toList = ['_'] := by decide
  rw [hjoined, hword, String.toList_append, String.toList_append, hunderscore, List.append_assoc]
  rfl

/-- Lists that open with words of one length are mangled apart. -/
theorem eq_of_mangleTree_node {head head' inner inner' : Tree} {s s' : Span} {word word' : String}
    (hhead : head.symbol? = some word) (hhead' : head'.symbol? = some word')
    (hlength : word.toList.length = word'.toList.length)
    (heq : mangleTree (.node [head, inner] s) = mangleTree (.node [head', inner'] s')) :
    word = word' ∧ mangleTree inner = mangleTree inner' := by
  have hlists := congrArg String.toList heq
  rw [toList_mangleTree_node hhead, toList_mangleTree_node hhead'] at hlists
  obtain ⟨hword, hrest⟩ := List.append_inj hlists hlength
  exact ⟨String.toList_inj.1 hword, String.toList_inj.1 (List.cons.inj hrest).2⟩

/-- A word for a type is not mangled like a list. -/
theorem ne_mangleTree_node {head inner : Tree} {s : Span} {word name : String} {t : Ty}
    (hhead : head.symbol? = some word) (hname : Ty.primitive? name = some t) :
    name ≠ mangleTree (.node [head, inner] s) := by
  rintro rfl
  refine not_mem_of_primitive? hname ?_
  rw [toList_mangleTree_node hhead]
  exact List.mem_append_right _ List.mem_cons_self

end TypeExpr

open TypeExpr

theorem Tree.alike_node {head head' inner inner' : Tree} {s s' : Span} {word : String}
    (hhead : head.symbol? = some word) (hhead' : head'.symbol? = some word)
    (h : inner.alike inner' = true) :
    (node [head, inner] s).alike (node [head', inner'] s') = true := by
  have hsame : head.alike head' = true := by
    rcases head with ⟨_ | _ | _ | name, _⟩ | _
    case leaf.sym =>
      rcases head' with ⟨_ | _ | _ | name', _⟩ | _
      case leaf.sym =>
        cases hhead
        cases hhead'
        rw [alike, decide_eq_true_eq]
      all_goals cases hhead'
    all_goals cases hhead
  rw [alike, alikeAll, alikeAll, alikeAll, hsame, h]
  rfl

/-- **Types that are spelled in full are mangled apart.** -/
theorem Tree.Spells.alike_of_mangleTree_eq {tree : Tree} {t : Ty} (h : tree.Spells t) :
    ∀ {tree' : Tree} {t' : Ty}, tree'.Spells t' → mangleTree tree = mangleTree tree' →
      tree.alike tree' = true := by
  induction h with
  | word hname =>
    intro tree' t' h' heq
    cases h' with
    | word hname' => exact decide_eq_true (congrArg Atom.sym heq)
    | ptr hhead' _ => exact absurd heq (ne_mangleTree_node hhead' hname)
    | seq hhead' _ => exact absurd heq (ne_mangleTree_node hhead' hname)
  | ptr hhead _ ih =>
    intro tree' t' h' heq
    cases h' with
    | word hname' => exact absurd heq.symm (ne_mangleTree_node hhead hname')
    | ptr hhead' hinner' =>
      exact Tree.alike_node hhead hhead' (ih hinner' (eq_of_mangleTree_node hhead hhead' rfl heq).2)
    | seq hhead' _ => exact absurd (eq_of_mangleTree_node hhead hhead' rfl heq).1 (by decide)
  | seq hhead _ ih =>
    intro tree' t' h' heq
    cases h' with
    | word hname' => exact absurd heq.symm (ne_mangleTree_node hhead hname')
    | ptr hhead' _ => exact absurd (eq_of_mangleTree_node hhead hhead' rfl heq).1 (by decide)
    | seq hhead' hinner' =>
      exact Tree.alike_node hhead hhead' (ih hinner' (eq_of_mangleTree_node hhead hhead' rfl heq).2)

end Kiln
