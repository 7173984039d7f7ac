import Kiln.Proofs.Container.Indexed
import Kiln.Proofs.Workspace.Reached
/-!
# Arrays that were declared

Declaring an array compiles the two units of one: a wrapper around its header, and its operations
(`Reached.declareArray_indexed`). The distance of the elements from the start of a block is not
measured by then: the global that it is kept in was given a number below zero.
-/

namespace Kiln

open Blueprint Source

/-! ## The wrapper -/

namespace Container

theorem inner_header (name : String) (elem : Tree) : Inner (headerTree (suffixed name) elem) :=
  ⟨fun _ => rfl,
    .inr ⟨Indexed.headerForm name elem, Indexed.structs_header, by simp [Indexed.headerForm]⟩⟩

variable {name : String} {elem : Tree} {header : Fragment}
  (h : header.root.respan default = (headerTree (suffixed name) elem).respan default)

include h

/-- A header is a struct, which its name names. -/
theorem payload_header : ∃ named, payload name header = .ok (header, named) ∧
    named.root.respan default = suffixed name "_header" := by
  have hform := congrArg (Tree.form? "struct") h
  rw [Tree.form?_respan, Tree.form?_respan] at hform
  obtain ⟨args, hargs, hrespan⟩ := Option.map_eq_some_iff.1 hform
  obtain ⟨struct, fields, rfl⟩ : ∃ struct fields, args = struct :: fields := by
    rcases args with _ | ⟨struct, fields⟩
    · cases hrespan
    · exact ⟨struct, fields, rfl⟩
  have hstruct : (struct.respan default).symbol? = some (name ++ "_header") :=
    congrArg Tree.symbol? (List.cons.inj hrespan).1
  rw [Tree.symbol?_respan] at hstruct
  refine ⟨⟨.leaf (.sym (name ++ "_header")) header.root.span, header.origin⟩, ?_, rfl⟩
  rw [payload, hargs]
  dsimp only [List.head?_cons, Option.bind_some]
  rw [hstruct]

theorem bounded_header : Bounded header.root := by
  intro items hitems
  have hsame := congrArg Tree.items? h
  rw [Tree.items?_respan, Tree.items?_respan, hitems] at hsame
  have hlength := congrArg List.length (Option.some.inj hsame)
  rw [List.length_map, List.length_map] at hlength
  rw [hlength]
  exact (by decide : 4 < 2 ^ 58)

end Container

/-- The units of wrappers are alike if their payloads are, and what those need. -/
theorem Blueprint.respan_wrapperTree {self : Tree} {own : String → Tree}
    {inner inner' payload payload' : Tree} (hinner : inner.respan default = inner'.respan default)
    (hpayload : payload.respan default = payload'.respan default) :
    (wrapperTree self own payload inner).respan default =
    (wrapperTree self own payload' inner').respan default := by
  simp only [wrapperTree, wrapperDefinitions, unary, respan_list, List.map_cons, List.map_nil,
    List.cons_append, List.nil_append, hinner, hpayload]

/-- A wrapper is one as well of what its payload and what that needs are like but for spans. -/
theorem Wraps.of_respan {lib : Library} {name : String}
    {inner inner' payload payload' : Tree} {m : Module} (h : Wraps lib name inner payload m)
    (hinner : inner.respan default = inner'.respan default)
    (hpayload : payload.respan default = payload'.respan default)
    (hneeds : Container.Inner inner') :
    Wraps lib name inner' payload' m := by
  obtain ⟨root, names, forms, hsettled, hroot⟩ := h.settled
  exact ⟨h.base, hneeds, root, names, forms, hsettled,
    (respan_wrapperTree hinner.symm hpayload.symm).trans hroot⟩

/-! ## The global -/

/-- The operations of an array have one global, which is written with the number that stands for no
distance. -/
theorem Source.Scenery.inits_operations {name : String} {elem root : Tree}
    (h : root.respan default = (operationsTree (word name) (suffixed name) elem).respan default) :
    ∃ s, (definitions root).filterMap initOf? = [.leaf (.int (-1)) s] := by
  have hinits := inits_respan default root
  rw [h, inits_respan] at hinits
  obtain ⟨init, hinit, hnumber⟩ := List.map_eq_singleton_iff.1 hinits.symm
  rcases init with ⟨a, s⟩ | ⟨items, s⟩
  · injection hnumber with ha
    exact ⟨s, by rw [hinit, ha]⟩
  · cases hnumber

/-- A number is the code that it is written as. -/
theorem Lowered.initialisers_of_number {lib : Library} {deps : List Module} {root : Tree}
    {names : Names} {forms : List FunctionForm} {globals : List GlobalForm} {u : LoweredUnit}
    (h : Lowered lib deps root names forms globals u) {n : Int64} {s : Span}
    (hroot : (definitions root).filterMap Scenery.initOf? = [.leaf (.int n) s]) :
    u.module.globals.length = 1 ∧
      ∃ init, u.initialisers = [init] ∧ init.code = .const (.int n) := by
  have hinits := h.inits.trans hroot
  obtain ⟨g, rfl, hg⟩ := List.map_eq_singleton_iff.1 hinits
  refine ⟨by rw [h.module_globals, h.globals_eq]; rfl, ?_⟩
  obtain ⟨init, rest, hlower, hrest, hinitialisers⟩ := List.forall₂_cons_left_iff.1 h.initialisers
  cases List.forall₂_nil_left_iff.1 hrest
  refine ⟨init, hinitialisers, ?_⟩
  rw [Names.lowerGlobal, hg] at hlower
  obtain ⟨⟨⟨code, type⟩, ls⟩, hcode, hlower⟩ := ok_of_bind hlower
  cases hcode
  dsimp only at hlower
  split at hlower
  · cases hlower
    rfl
  · cases hlower

/-- **A global that is initialised with a number holds it** when its unit is compiled. -/
theorem Work.global_of_number {unit : SourceUnit} {deps : List Module} {m : Module}
    {w w' : Workspace} (h : (Work.compile unit deps).run w = .ok (.ok m) w')
    (hsize : w.store.globals.size = w.library.modules.size) {f : Fragment}
    (hread : unit.read = .ok f) {n : Int64} {s : Span}
    (hroot : (definitions f.root).filterMap Scenery.initOf? = [.leaf (.int n) s]) :
    w'.store.global? m.id 0 = some (.int n) := by
  rcases compile_outcome h with ⟨_, hcases, -⟩ | ⟨lowered, origin, r, hlower, hlibrary, hinit, hr⟩
  · cases hcases
  obtain ⟨f', hread', hlowered⟩ := lower_outcome hlower
  cases hread.symm.trans hread'
  obtain ⟨names, forms, globals, hl⟩ := lowered_of_lowerUnit hlowered
  obtain ⟨hglobals, init, hinits, hcode⟩ := hl.initialisers_of_number hroot
  rcases hr with ⟨_, -, hcases⟩ | ⟨rfl, hcases⟩
  · cases hcases
  cases hcases
  -- the global has its place, and is given its only value there
  have hplace : (w.store.install lowered.module).global? lowered.module.id 0 = some .unit := by
    obtain ⟨g, hg⟩ := List.length_eq_one_iff.1 hglobals
    refine Option.bind_eq_some_iff.2 ⟨[.unit], ?_, rfl⟩
    rw [hl.id, Library.nextId, ← hsize, Store.install, hg]
    exact Array.getElem?_push_size
  rw [hinits] at hinit
  rcases initialiseFrom_outcome hinit with ⟨w₁, hfirst, hrest⟩ | ⟨_, _, -, hcases⟩
  · cases hrest
    rcases initialise_outcome hfirst with ⟨v, s, -, hrun, rfl⟩ | ⟨_, _, hcases, -⟩
    · rw [hcode] at hrun
      cases hrun
      exact (Store.global?_setGlobal hplace _ 0 (.int n)).trans (by rw [if_pos ⟨rfl, rfl⟩])
    · cases hcases
  · cases hcases

/-! ## Declaring -/

theorem TypeExpr.length_mangleTree_lt (elem : TypeExpr) :
    (mangleTree elem.tree).length < elem.arrayName.length := by
  rw [arrayName, String.length_append, mangled]
  have hsix : "array_".length = 6 := by decide
  omega

variable {w w' : Workspace}

/-- A wrapper that is declared is compiled, so a workspace that was reached is so still. -/
theorem Reached.declareWrapper (hw : Reached w) {name : String} {inner : Fragment} {m : Module}
    (h : (Work.declareWrapper name inner).run w = .ok (.ok m) w') : Reached w' := by
  obtain ⟨unit, type, w₁, -, hcompile, hlibrary, hstore⟩ := Work.declareWrapper_compiled h
  exact .elsewhere (.compile hw (fun _ hdep => by cases hdep) hcompile) hlibrary (by rw [hstore])

theorem Reached.find?_base (hw : Reached w) : w.library.find? ⟨0⟩ = some Module.base :=
  hw.sound.base _ _ rfl

/-- **An array that could be declared is the two units of one**, put behind the modules that were
there, and its distance is not measured yet. -/
theorem Reached.declareArray_indexed (hw : Reached w) {elem : TypeExpr} {m ops : Module}
    (h : (Work.declareArray elem).run w = .ok (.ok (ops, m)) w') :
    w'.library = (w.library.push m).push ops ∧
      Indexed w.library elem.arrayName elem.tree m ops ∧
      w'.store.global? ops.id 0 = some (.int (-1)) := by
  obtain ⟨header, operations, w₁, w₂, hparts, hwrapper, hcompile, hlibrary, hstore⟩ :=
    Work.declareArray_compiled h
  obtain ⟨header', hheader, hparts⟩ := ok_of_bind hparts
  obtain ⟨operations', hoperations, hparts⟩ := ok_of_bind hparts
  cases hparts
  have hspans := instance_header hheader
  obtain ⟨hlibrary₁, definition, named, hpayload, hwraps⟩ :=
    Work.declareWrapper_wraps hwrapper hw.find?_base (Container.bounded_header hspans)
  obtain ⟨named', hpayload', hnamed⟩ := Container.payload_header hspans
  cases hpayload.symm.trans hpayload'
  obtain ⟨lowered, origin, hlower, rfl, hlibrary₂⟩ := Work.compile_ok hcompile
  obtain ⟨f, hread, hlowered⟩ := Work.lower_outcome hlower
  cases hread
  obtain ⟨names, forms, hsettled⟩ := settled_of_lowerUnit hlowered
  rw [hlibrary₁] at hsettled hlibrary₂
  refine ⟨hlibrary.trans hlibrary₂, ⟨hwraps.of_respan hspans hnamed (Container.inner_header _ _),
    ⟨operations.root, names, forms, hsettled, (instance_operations hoperations).symm⟩,
    elem.length_mangleTree_lt⟩, ?_⟩
  rw [hstore]
  obtain ⟨s, hinit⟩ := Scenery.inits_operations (instance_operations hoperations)
  exact Work.global_of_number hcompile (hw.declareWrapper hwrapper).sound.keeps.size rfl hinit

end Kiln
