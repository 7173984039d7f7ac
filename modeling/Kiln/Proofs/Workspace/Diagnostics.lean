import Kiln.Proofs.Lowering.Units
import Kiln.Proofs.Template.Places
import Kiln.Proofs.Template.Reading
import Kiln.Proofs.Workspace.Mirroring
/-!
# Diagnostics point into the texts they name

Whatever the program reports of a text, it reports at a place of that text (`diagnosed_located`):
what cannot be read, no matter as what, and what cannot be compiled, also of a fragment whose parts
come from several texts. What lowering refuses, it refuses at a part of the tree it was given, and
an initialiser fails where it stands in that tree; so it is enough that the tree has all its spans
in the text that its fragment names.
-/

namespace Kiln

/-! ## What is refused of a placed tree -/

section Lowering

variable {lib : Library} {name text : String} {deps : List Module} {root : Tree}
  (hroot : root.LiesIn text)

include hroot

/-- A tree is lowered as itself, and what is said of its spans holds of all that comes of it. -/
theorem lowerUnit_placed :
    UpheldUnless (Overflows lib deps root) (fun s s' => s.LiesIn text ∧ s'.LiesIn text)
      (LoweredUnit.Like (fun s s' => s.LiesIn text ∧ s'.LiesIn text) name deps)
      (lowerUnit lib name deps root) (lowerUnit lib name deps root) :=
  lowerUnit_upheld (Module.Cover.refl deps)
    (Tree.matches_self fun u hu => ⟨hroot u hu, hroot u hu⟩) name name

/-- What is wrong with a unit is wrong at a place of its text. -/
theorem error_of_lowerUnit_liesIn {e : LoweringError}
    (h : lowerUnit lib name deps root = .error e) :
    e.span.LiesIn text := by
  obtain ⟨_, hspan, -⟩ := UpheldUnless.error (lowerUnit_placed hroot) h
  exact hspan

/-- The initialisers of a unit stand in its text. -/
theorem initialisers_liesIn {u : LoweredUnit} (h : lowerUnit lib name deps root = .ok u) :
    ∀ init ∈ u.initialisers, init.span.LiesIn text := by
  obtain ⟨u', hagain, hu⟩ := (lowerUnit_placed hroot).ok h
  rw [h] at hagain
  cases hagain
  intro init hinit
  obtain ⟨_, -, hlike⟩ := exists_of_forall₂ hu.initialisers hinit
  exact hlike.span.2

end Lowering

/-! ## What is compiled -/

/-- The text of a unit, or the fragment that it is, as the program comes by it. -/
def SourceUnit.Sourced : SourceUnit → Prop
  | text _ _ _ => True
  | fragment _ f => f.Sourced

/-- The text that a unit is said to come from. -/
def SourceUnit.origin : SourceUnit → Origin
  | text _ origin contents => ⟨origin, contents⟩
  | fragment _ f => f.origin

/-- The error names the text that the unit comes from, and is at a place of that text. -/
structure CompileError.Within (e : CompileError) (unit : SourceUnit) : Prop where
  origin : e.origin = unit.origin
  span : e.span.LiesIn unit.origin.text

namespace SourceUnit

variable {unit : SourceUnit} {lib : Library} {deps : List Module} {e : CompileError}

/-- A unit is read to a fragment of its text, which is placed. -/
theorem placed_of_read {f : Fragment} (hunit : unit.Sourced) (h : unit.read = .ok f) :
    f.origin = unit.origin ∧ f.Placed := by
  cases unit with
  | text name origin contents => exact Fragment.placed_of_readUnit (ok_of_mapError h)
  | fragment name f' =>
    cases h
    exact ⟨rfl, hunit.placed⟩

theorem error_of_read_within (h : unit.read = .error e) : e.Within unit := by
  cases unit with
  | text name origin contents =>
    obtain ⟨cause, hcause, rfl⟩ := error_of_mapError h
    exact ⟨rfl, Fragment.error_of_readUnit_liesIn hcause⟩
  | fragment name f => cases h

theorem error_of_lower_within (hunit : unit.Sourced) (h : unit.lower lib deps = .error e) :
    e.Within unit := by
  rcases error_of_bind h with hread | ⟨f, hread, h⟩
  · exact error_of_read_within hread
  · obtain ⟨horigin, hplaced⟩ := placed_of_read hunit hread
    rcases error_of_bind h with hlower | ⟨_, _, h⟩
    · obtain ⟨cause, hcause, rfl⟩ := error_of_mapError hlower
      exact ⟨horigin, horigin ▸ error_of_lowerUnit_liesIn hplaced hcause⟩
    · cases h

/-- The initialisers of a unit that is lowered stand in the text of the unit. -/
theorem initialisers_of_lower {u : LoweredUnit} {origin : Origin} (hunit : unit.Sourced)
    (h : unit.lower lib deps = .ok (u, origin)) :
    origin = unit.origin ∧ ∀ init ∈ u.initialisers, init.span.LiesIn unit.origin.text := by
  obtain ⟨f, hread, h⟩ := ok_of_bind h
  obtain ⟨horigin, hplaced⟩ := placed_of_read hunit hread
  obtain ⟨_, hlower, h⟩ := ok_of_bind h
  cases h
  exact ⟨horigin, horigin ▸ initialisers_liesIn hplaced (ok_of_mapError hlower)⟩

end SourceUnit

namespace Work

variable {w w' : Workspace} {unit : SourceUnit} {deps : List Module} {e : CompileError}

/-- The initialisers of a module fail where one of them stands. -/
theorem error_of_initialiseFrom {m : Module} {origin : Origin} :
    ∀ {inits : List Initialiser} {index : Nat} {w : Workspace},
      (initialiseFrom m origin index inits).run w = .ok (.error e) w' →
      e.origin = origin ∧ ∃ init ∈ inits, e.span = init.span
  | [], _, _, h => by cases h
  | init :: inits, index, w, h => by
    rcases initialiseFrom_outcome h with ⟨w₁, -, hrest⟩ | ⟨f, global, -, hr⟩
    · obtain ⟨horigin, later, hlater, hspan⟩ := error_of_initialiseFrom hrest
      exact ⟨horigin, later, List.mem_cons_of_mem init hlater, hspan⟩
    · cases hr
      exact ⟨rfl, init, List.mem_cons_self, rfl⟩

/-- **A unit fails to compile at a place of its own text**, whether it is read, lowered or
initialised. -/
theorem error_of_compile_within (hunit : unit.Sourced)
    (h : (compile unit deps).run w = .ok (.error e) w') :
    e.Within unit := by
  rcases hlower : unit.lower w.library deps with e' | ⟨u, origin⟩
  · obtain ⟨hsame, -⟩ := refusal_outcome ((run_compile_refused hlower).symm.trans h)
    cases hsame
    exact SourceUnit.error_of_lower_within hunit hlower
  · obtain ⟨horigin, hinits⟩ := SourceUnit.initialisers_of_lower hunit hlower
    rw [run_compile hlower] at h
    rcases run_of_bind h with ⟨e', hinit, hr⟩ | ⟨_, _, _, h⟩
    · cases hr
      obtain ⟨rfl, init, hmem, hspan⟩ := error_of_initialiseFrom hinit
      exact ⟨horigin, hspan ▸ hinits init hmem⟩
    · cases h

end Work

/-! ## All diagnostics -/

/-- What the program reports: the text that a report is about, and the span that it gives. -/
inductive Diagnosed : String → Span → Prop
  | forms {text : String} {e : SyntaxError} : readForms text = .error e → Diagnosed text e.span
  | unit {name text : String} {e : SyntaxError} : Fragment.readUnit name text = .error e →
      Diagnosed text e.span
  | expr {name text : String} {e : SyntaxError} : Fragment.readExpr name text = .error e →
      Diagnosed text e.span
  | type {text : String} {e : SyntaxError} : TypeExpr.read text = .error e → Diagnosed text e.span
  | ofFragment {f : Fragment} {e : SyntaxError} : f.Sourced → TypeExpr.ofFragment f = .error e →
      Diagnosed f.origin.text e.span
  | template {name text : String} {e : SyntaxError} : Template.read name text = .error e →
      Diagnosed text e.span
  | make {name : String} {holes : Holes} {body : Fragment} {e : SyntaxError} : body.Sourced →
      Template.make name holes body = .error e → Diagnosed body.origin.text e.span
  | compile {unit : SourceUnit} {deps : List Module} {w w' : Workspace} {e : CompileError} :
      unit.Sourced →
      (Work.compile unit deps).run w = .ok (.error e) w' → Diagnosed e.origin.text e.span

/-- **Every diagnostic points into the text it names.** Its span does not run backwards or out of
the text and cuts no character, and the line and the column that are told of it are those that one
counts. -/
theorem diagnosed_located {text : String} {s : Span} (h : Diagnosed text s) :
    s.LiesIn text ∧ (s.position text).Counts text s.start := by
  have hspan : s.LiesIn text := by
    cases h with
    | forms h => exact Grammar.error_of_readForms_liesIn h
    | unit h => exact Fragment.error_of_readUnit_liesIn h
    | expr h => exact Fragment.error_of_readExpr_liesIn h
    | type h => exact TypeExpr.error_of_read_liesIn h
    | ofFragment hf h => exact TypeExpr.error_of_ofFragment_liesIn hf.placed h
    | template h => exact Template.error_of_read_liesIn h
    | make hbody h => exact Template.error_of_make_liesIn hbody.placed h
    | compile hunit h =>
      obtain ⟨horigin, hspan⟩ := Work.error_of_compile_within hunit h
      exact horigin ▸ hspan
  exact ⟨hspan, Span.position_counts hspan.start⟩

/-- A hole behind a character of two bytes is filled with an expression of another text, longer than
the first; where that fails, it fails at the hole. -/
theorem diagnosed_located_instance :
    let text := "; é\n(global ratio i64 $x)"
    let filler : Fragment :=
      ⟨.node [.leaf (.sym "/") ⟨35, 36⟩, .leaf (.int 1) ⟨37, 38⟩, .leaf (.int 0) ⟨39, 40⟩] ⟨34, 41⟩,
        ⟨"none", "; the quotient of one and nothing\n(/ 1 0)"⟩⟩
    ∃ body t f e w', Fragment.readUnit "ratio" text = .ok body ∧
      Template.make "ratio" (.ofList [("x", .fragment)]) body = .ok t ∧
      t.instantiate (.ofList [("x", .fragment filler)]) = .ok f ∧
      (Work.compile (.fragment "ratio" f) []).run (.initial 4096 (.empty "/")) = .ok (.error e) w' ∧
      e.span = ⟨23, 25⟩ ∧ e.position = ⟨2, 19⟩ ∧ e.span.LiesIn e.origin.text ∧
        e.position.Counts e.origin.text e.span.start := by
  intro text filler
  let body : Fragment :=
    ⟨.node [.leaf (.sym "do") ⟨0, 26⟩,
      .node [.leaf (.sym "global") ⟨6, 12⟩, .leaf (.sym "ratio") ⟨13, 18⟩,
        .leaf (.sym "i64") ⟨19, 22⟩, .leaf (.sym "$x") ⟨23, 25⟩] ⟨5, 26⟩] ⟨0, 26⟩, ⟨"ratio", text⟩⟩
  have hread : Fragment.readUnit "ratio" text = .ok body := by
    rw [Fragment.readUnit, @readForms_eq text "; é\n(global ratio i64 $x)".toList rfl]
    rfl
  let t : Template := ⟨"ratio", .ofList [("x", .fragment)], body, by decide +kernel⟩
  have hmake : Template.make "ratio" (.ofList [("x", .fragment)]) body = .ok t := rfl
  let f : Fragment :=
    ⟨Template.substitute (.ofList [("x", .fragment filler)]) body.root, body.origin⟩
  have hcheck : (match (Work.compile (.fragment "ratio" f) []).run (.initial 4096 (.empty "/")) with
      | .ok (.error e) _ => decide (e.span = ⟨23, 25⟩ ∧ e.position = ⟨2, 19⟩)
      | _ => false) = true := by decide +kernel
  split at hcheck
  case h_2 => cases hcheck
  rename_i e w' hrun
  obtain ⟨hspan, hposition⟩ := of_decide_eq_true hcheck
  have hinstance : t.instantiate (.ofList [("x", .fragment filler)]) = .ok f := rfl
  have hsourced : SourceUnit.Sourced (.fragment "ratio" f) :=
    Fragment.Sourced.made (.unit hread) hmake hinstance
  exact ⟨body, t, f, e, w', hread, hmake, hinstance, hrun, hspan, hposition,
    diagnosed_located (.compile hsourced hrun)⟩

end Kiln
