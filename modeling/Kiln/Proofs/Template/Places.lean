import Kiln.Proofs.Template.Filling
import Kiln.Proofs.Tree.Places
/-!
# Places of fragments and templates

A fragment is placed when all its spans are in its own text (`Fragment.Placed`). A fragment that was
read is, and so is an instance of a template whose body is, whatever fills its holes
(`placed_of_instantiate`): trees of other texts take the spans of the holes they fill. That is all
the ways in which the program comes by fragments (`Fragment.Sourced`). What is found wrong with a
placed fragment, as a type or as the body of a template, is found at a part of it.
-/

namespace Kiln

namespace Fragment

/-- All spans of the fragment are in the text that it names. -/
def Placed (f : Fragment) : Prop := f.root.LiesIn f.origin.text

theorem placed_of_readUnit {name text : String} {f : Fragment} (h : readUnit name text = .ok f) :
    f.origin = ⟨name, text⟩ ∧ f.Placed := by
  obtain ⟨forms, hforms, hf⟩ := ok_of_bind h
  cases hf
  refine ⟨rfl, Tree.liesIn_node.2 ⟨Span.whole_liesIn text, List.forall_mem_cons.2 ⟨?_, ?_⟩⟩⟩
  · exact Tree.liesIn_leaf.2 (Span.whole_liesIn text)
  · exact Grammar.readForms_liesIn hforms

theorem error_of_readUnit_liesIn {name text : String} {e : SyntaxError}
    (h : readUnit name text = .error e) :
    e.span.LiesIn text := by
  rcases error_of_bind h with hforms | ⟨_, _, hf⟩
  · exact Grammar.error_of_readForms_liesIn hforms
  · cases hf

theorem placed_of_readExpr {name text : String} {f : Fragment} (h : readExpr name text = .ok f) :
    f.origin = ⟨name, text⟩ ∧ f.Placed := by
  unfold readExpr at h
  split at h
  · cases h
  · rename_i form hforms
    cases h
    exact ⟨rfl, Grammar.readForms_liesIn hforms form List.mem_cons_self⟩
  · cases h

/-- A text that should hold one expression is refused where it cannot be read, or as a whole. -/
theorem error_of_readExpr_liesIn {name text : String} {e : SyntaxError}
    (h : readExpr name text = .error e) :
    e.span.LiesIn text := by
  unfold readExpr at h
  split at h
  · rename_i e' hforms
    cases h
    exact Grammar.error_of_readForms_liesIn hforms
  · cases h
  · cases h
    exact Span.whole_liesIn text

end Fragment

/-! ## Types -/

/-- What does not spell a type is refused at a part of it. -/
theorem error_of_checkType {text : String} {t : Tree} {e : SyntaxError} (ht : t.LiesIn text)
    (h : checkType t = .error e) : e.span.LiesIn text := by
  fun_induction checkType t with
  | case1 => cases h
  | case2 | case3 | case5 | case6 =>
    cases h
    exact ht.span
  | case4 head inner s _ ih => exact ih ((Tree.liesIn_node.1 ht).2 inner (by simp)) h

namespace TypeExpr

theorem error_of_ofFragment_liesIn {f : Fragment} {e : SyntaxError} (hf : f.Placed)
    (h : ofFragment f = .error e) :
    e.span.LiesIn f.origin.text := by
  unfold ofFragment at h
  split at h
  · cases h
  · rename_i e' he
    cases h
    exact error_of_checkType hf he

theorem error_of_read_liesIn {text : String} {e : SyntaxError} (h : read text = .error e) :
    e.span.LiesIn text := by
  unfold read at h
  split at h
  · rename_i f hf
    obtain ⟨horigin, hplaced⟩ := Fragment.placed_of_readExpr hf
    have hspan := error_of_ofFragment_liesIn hplaced h
    rwa [horigin] at hspan
  · rename_i e' he
    cases h
    exact Fragment.error_of_readExpr_liesIn he

end TypeExpr

/-! ## Templates -/

namespace Template

variable {name text : String} {holes : Holes}

/-- A hole that is used wrongly is found at the symbol that uses it. -/
theorem error_of_checkHoles {body : Tree} {e : SyntaxError} (hbody : body.LiesIn text)
    (h : checkHoles name holes body = .error e) : e.span.LiesIn text := by
  obtain ⟨symbol, hsymbol, he⟩ := error_of_forM h
  obtain ⟨fault, -, rfl⟩ := error_of_mapError he
  exact hbody.symbols symbol hsymbol

theorem error_of_make_liesIn {body : Fragment} {e : SyntaxError} (hbody : body.Placed)
    (h : make name holes body = .error e) : e.span.LiesIn body.origin.text := by
  unfold make at h
  split at h
  · cases h
  · rename_i e' he
    cases h
    exact error_of_checkHoles hbody he

theorem body_of_make {body : Fragment} {t : Template} (h : make name holes body = .ok t) :
    t.body = body := by
  unfold make at h
  split at h
  · cases h
    rfl
  · cases h

/-- A hole is declared wrongly at its entry of the header. -/
theorem error_of_readHole {before : List (String × HoleKind)} {entry : Tree} {e : SyntaxError}
    (h : readHole before entry = .error e) : e.span = entry.span := by
  unfold readHole at h
  dsimp only at h
  repeat' split at h
  all_goals cases h <;> rfl

theorem error_of_readHoles {entries : List Tree} {e : SyntaxError}
    (hentries : ∀ t ∈ entries, t.LiesIn text) (h : readHoles entries = .error e) :
    e.span.LiesIn text := by
  obtain ⟨before, -, entry, hentry, he⟩ :=
    error_of_foldlM (I := fun _ => True) (fun _ _ _ _ => trivial) trivial h
  rcases error_of_bind he with he | ⟨_, _, he⟩
  · rw [error_of_readHole he]
    exact (hentries entry hentry).span
  · cases he

/-- A template is made of a body in the text, unless something before that is wrong at a place of
the text. -/
theorem read_cases (name text : String) :
    (∃ e, Template.read name text = .error e ∧ e.span.LiesIn text) ∨
      ∃ holes root, Template.read name text = make name holes ⟨root, ⟨name, text⟩⟩ ∧
        root.LiesIn text := by
  unfold Template.read
  rcases hforms : readForms text with e | forms
  · exact .inl ⟨e, rfl, Grammar.error_of_readForms_liesIn hforms⟩
  have hplaced := Grammar.readForms_liesIn hforms
  dsimp only [bind, Except.bind]
  split
  case h_2 => exact .inl ⟨_, rfl, Span.whole_liesIn text⟩
  rename_i form
  have hform : form.LiesIn text := hplaced form List.mem_cons_self
  split
  case h_2 => exact .inl ⟨_, rfl, hform.span⟩
  rename_i args hargs
  have hitems := hform.form? hargs
  split
  case h_2 => exact .inl ⟨_, rfl, hform.span⟩
  rename_i header body
  have hheader : header.LiesIn text := hitems header List.mem_cons_self
  have hbody : ∀ t ∈ body, t.LiesIn text := fun t ht => hitems t (List.mem_cons_of_mem header ht)
  split
  case h_2 => exact .inl ⟨_, rfl, hheader.span⟩
  rename_i entries hentries
  rcases hholes : readHoles entries with e | holes
  · exact .inl ⟨e, rfl, error_of_readHoles (hheader.items? hentries) hholes⟩
  dsimp only
  rcases body with _ | ⟨first, _ | ⟨second, rest⟩⟩
  · exact .inl ⟨_, rfl, hform.span⟩
  · exact .inr ⟨_, _, rfl, hbody first List.mem_cons_self⟩
  · refine .inr ⟨_, _, rfl, Tree.liesIn_node.2 ⟨hform.span, List.forall_mem_cons.2 ⟨?_, hbody⟩⟩⟩
    exact Tree.liesIn_leaf.2 hform.span

/-- The error of a text that is no template is in the text. -/
theorem error_of_read_liesIn {e : SyntaxError} (h : Template.read name text = .error e) :
    e.span.LiesIn text := by
  rcases read_cases name text with ⟨e', he, hspan⟩ | ⟨holes, root, hmake, hroot⟩
  · rw [he] at h
    cases h
    exact hspan
  · have hbody : Fragment.Placed ⟨root, ⟨name, text⟩⟩ := hroot
    exact error_of_make_liesIn hbody (hmake ▸ h)

theorem placed_of_read {t : Template} (h : Template.read name text = .ok t) : t.body.Placed := by
  rcases read_cases name text with ⟨e, he, -⟩ | ⟨holes, root, hmake, hroot⟩
  · rw [he] at h
    cases h
  · rw [body_of_make (hmake ▸ h)]
    exact hroot

/-- Whatever takes the place of a symbol has the span of the symbol throughout. -/
theorem span_of_partOf_substituteSymbol {bindings : Bindings} {symbol : String}
    {s : Span} {u : Tree} (h : u.PartOf (substituteSymbol bindings symbol s)) : u.span = s := by
  unfold substituteSymbol at h
  split at h
  · split at h
    · exact span_of_partOf_toTree h
    · cases h
      rfl
  · cases h
    rfl
  · cases h
    rfl

/-- Filling the holes of a tree leaves it in the text. -/
theorem substitute_liesIn {bindings : Bindings} {t : Tree} :
    t.LiesIn text → (substitute bindings t).LiesIn text := by
  induction t using Tree.inductItems with
  | leaf a s =>
    intro h
    cases a with
    | sym symbol => exact fun u hu => span_of_partOf_substituteSymbol hu ▸ h.span
    | _ => exact h
  | node items s ih =>
    intro h
    rw [substitute, substituteAll_eq_map]
    obtain ⟨hs, hitems⟩ := Tree.liesIn_node.1 h
    exact Tree.liesIn_node.2 ⟨hs, List.forall_mem_map.2 fun t ht => ih t ht (hitems t ht)⟩

/-- **An instance is placed where the body of the template is**, whatever fills the holes. -/
theorem placed_of_instantiate {t : Template} {bindings : Bindings} {f : Fragment}
    (hbody : t.body.Placed) (h : t.instantiate bindings = .ok f) : f.Placed := by
  obtain ⟨-, -, rfl⟩ := instantiate_ok_iff.1 h
  exact substitute_liesIn hbody

end Template

/-! ## Where fragments come from -/

/-- The fragments that the program comes by: they are read, as a unit or as an expression, or they
are instances of a template, which is read or made of a fragment. What is bound to the holes may be
anything. -/
inductive Fragment.Sourced : Fragment → Prop
  | unit {name text : String} {f : Fragment} : readUnit name text = .ok f → Sourced f
  | expr {name text : String} {f : Fragment} : readExpr name text = .ok f → Sourced f
  | read {name text : String} {t : Template} {bindings : Bindings} {f : Fragment} :
      Template.read name text = .ok t → t.instantiate bindings = .ok f → Sourced f
  | made {name : String} {holes : Holes} {body : Fragment} {t : Template} {bindings : Bindings}
      {f : Fragment} :
      Sourced body → Template.make name holes body = .ok t →
        t.instantiate bindings = .ok f → Sourced f

/-- **All spans of a fragment are in the text that it names.** -/
theorem Fragment.Sourced.placed {f : Fragment} (h : f.Sourced) : f.Placed := by
  induction h with
  | unit h => exact (placed_of_readUnit h).2
  | expr h => exact (placed_of_readExpr h).2
  | read hread hf => exact Template.placed_of_instantiate (Template.placed_of_read hread) hf
  | made _ hmake hf hbody =>
    exact Template.placed_of_instantiate (Template.body_of_make hmake ▸ hbody) hf

end Kiln
