import Kiln.Template.Instance
import Kiln.Proofs.Source.Spans
/-!
# Holes that are filled

What filling the holes of a tree comes to, symbol by symbol, and that it comes to like trees
where it starts from like ones.
-/

namespace Kiln

namespace Template

variable {bindings : Bindings}

theorem substituteAll_eq_map (bindings : Bindings) (ts : List Tree) :
    substituteAll bindings ts = ts.map (substitute bindings) := by
  induction ts with
  | nil => rfl
  | cons t ts ih => rw [substituteAll, ih, List.map_cons]

/-! ## Symbols -/

theorem opensHole_eq_false : ∀ {cs : List Char}, '$' ∉ cs → opensHole cs = false
  | [], _ => rfl
  | c :: cs, h => by
    have hc : c ≠ '$' := fun hc => h (hc ▸ List.mem_cons_self)
    have hcs : '$' ∉ cs := fun hmem => h (List.mem_cons_of_mem c hmem)
    rw [opensHole]
    · exact opensHole_eq_false hcs
    · exact fun _ heq => absurd heq hc

/-- A symbol without a dollar sign stands for itself. -/
theorem substituteSymbol_plain {symbol : String} (h : '$' ∉ symbol.toList) (s : Span) :
    substituteSymbol bindings symbol s = .leaf (.sym symbol) s := by
  have hshape : symbolShape symbol = .ok .plain := by
    rw [symbolShape]
    split
    · rename_i name heq
      exact absurd (heq ▸ List.mem_cons_self) h
    · rw [symbolShape.pastedShape, opensHole_eq_false h]
      rfl
  rw [substituteSymbol, hshape]

/-- A symbol that is a hole stands for what fills it. -/
theorem substituteSymbol_hole {symbol hole : String} {b : Binding}
    (h : symbolShape symbol = .ok (.hole hole)) (hb : bindings.find? hole = some b) (s : Span) :
    substituteSymbol bindings symbol s = b.toTree s := by
  rw [substituteSymbol, h]
  dsimp only
  rw [hb]

/-- A hole pasted in front of a text. -/
theorem substituteSymbol_pasted {symbol hole name : String} {suffix : List Char}
    (h : symbolShape symbol = .ok (.pasted [.hole hole, .text suffix]))
    (hb : bindings.find? hole = some (.ident name)) (s : Span) :
    substituteSymbol bindings symbol s = .leaf (.sym (name ++ String.ofList suffix)) s := by
  rw [substituteSymbol, h]
  simp only [List.flatMap_cons, List.flatMap_nil, pieceText, hb, List.append_nil,
    String.ofList_append, String.ofList_toList]

/-! ## Spans -/

theorem toTree_respan (b : Binding) (s s' : Span) : (b.toTree s').respan s = b.toTree s := by
  cases b with
  | ident name => rfl
  | type t => exact Tree.respan_respan s s' t.tree
  | fragment f => exact Tree.respan_respan s s' f.root

/-- What fills the holes of a tree read elsewhere is read there as well. -/
theorem substitute_respan (s : Span) (t : Tree) :
    (substitute bindings t).respan s = substitute bindings (t.respan s) := by
  induction t using Tree.inductItems with
  | leaf a s' =>
    rcases a with n | b | text | name
    · rfl
    · rfl
    · rfl
    · show (substituteSymbol bindings name s').respan s = substituteSymbol bindings name s
      rw [substituteSymbol, substituteSymbol]
      split
      · split
        · exact toTree_respan _ _ _
        · rfl
      · rfl
      · rfl
  | node items s' ih =>
    rw [substitute, Tree.respan, Tree.respan, substitute, substituteAll_eq_map,
      substituteAll_eq_map, Tree.respanAll_eq_map, Tree.respanAll_eq_map, List.map_map,
      List.map_map]
    congr 1
    exact List.map_congr_left ih

/-- **Like trees have like instances.** -/
theorem substitute_alike {t u : Tree} (h : t.alike u = true) :
    (substitute bindings t).respan default = (substitute bindings u).respan default := by
  rw [substitute_respan, substitute_respan, Tree.respan_eq_of_alike default h]

/-- An instance is the body with its holes filled. -/
theorem instantiate_eq {t : Template} {f : Fragment} (h : t.instantiate bindings = .ok f) :
    f.root = substitute bindings t.body.root := by
  obtain ⟨-, -, h⟩ := ok_of_bind h
  obtain ⟨-, -, h⟩ := ok_of_bind h
  cases h
  rfl

end Template

end Kiln
