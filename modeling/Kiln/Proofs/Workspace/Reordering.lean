import Kiln.Proofs.Lowering.Reordering
import Kiln.Proofs.Workspace.Regular
/-!
# The order of definitions

The definitions of a unit may come in any order and may be grouped as one likes: what a unit
compiles to depends on neither, but for the order of its functions and structs, as long as its
globals come in theirs (`Work.compile_reordered`). The functions of two such modules are matched by
their names. Those of all other modules are what they were, since no code that was there before
calls a function of a module that is not (`calls_earlier`).
-/

namespace Kiln

open Work

/-- The definitions are the same but for their spans and their order, in which globals keep
theirs. -/
def Reordered (ts ts' : List Tree) : Prop :=
  ∃ mid, ts.Perm mid ∧ mid.filter (·.opens "global") = ts.filter (·.opens "global") ∧
    List.Forall₂ (fun t t' => t.alike t' = true) mid ts'

theorem Reordered.rearranges {ts ts' : List Tree} (h : Reordered ts ts') :
    Rearranges (fun _ _ => True) ts ts' := by
  obtain ⟨mid, hperm, hglobals, hmid⟩ := h
  have hmatch : List.Forall₂ (Tree.Matches fun _ _ => True) mid ts' :=
    hmid.imp fun _ _ ht => Tree.matches_of_alike (fun _ _ => trivial) ht
  refine ⟨⟨mid, hperm, hmatch⟩, ?_⟩
  rw [← hglobals]
  exact forall₂_filter hmatch fun _ _ ht => ht.opens "global"

/-- The modules are the same but for the order of their functions, which have names of their own,
and of their structs, and for their code. -/
structure Module.Reordered (m m' : Module) : Prop where
  id : m'.id = m.id
  deps : m'.deps = m.deps
  nodup : (m.functions.map (·.name)).Nodup
  signatures : (m.functions.map fun f => (f.name, f.params, f.result)).Perm
    (m'.functions.map fun f => (f.name, f.params, f.result))
  structs : m.structs.Perm m'.structs
  globals : m'.globals = m.globals

namespace Module

variable {m : Module} {name : String}

theorem name_of_functionIndex? {i : Nat} (h : m.functionIndex? name = some i) :
    (m.functions.map (·.name))[i]? = some name := by
  obtain ⟨hlt, hname, -⟩ := List.findIdx?_eq_some_iff_getElem.1 h
  rw [List.getElem?_map, List.getElem?_eq_getElem hlt, Option.map_some, of_decide_eq_true hname]

theorem functionIndex?_eq_none_iff : m.functionIndex? name = none ↔
    name ∉ m.functions.map (·.name) := by
  rw [functionIndex?, List.findIdx?_eq_none_iff]
  simp

end Module

/-! ## Code that was there before -/

/-- **All code of a used workspace is typed**, with no more known of it than the types of its
operands. -/
theorem Workspace.Used.typed {w : Workspace} (h : w.Used) : w.library.Typed .full := by
  refine h.library_induction (motive := fun lib => lib.Typed .full) (Library.typed_initial .full)
    fun hused htyped hdeps hlower => ?_
  obtain ⟨names, forms, globals, hl⟩ := lowered_of_lowerUnit hlower
  exact .push hl hdeps hused.linked.base hused.linked.grounded trivial (.inl trivial) htyped

/-- **Typed code calls no function of a module that is not there yet.** -/
theorem Library.Typed.calls_earlier {lib : Library} {L : Laxity} (hlib : lib.Typed L)
    {handle : FunctionHandle} {f : Function} (hf : lib.function? handle = some f)
    {slots : Nat} {code : Code} (hbody : f.body = .code slots code) (owns owns' : List String) :
    code.CallsSelf (Callee.Via (FunctionHandle.Renamed lib.nextId owns owns') handle.home) := by
  intro callee args hpart
  have htyped := hlib handle f hf
  unfold Function.Typed at htyped
  rw [hbody] at htyped
  obtain ⟨sig, hsig⟩ := Code.Takes.offered htyped hpart
  obtain ⟨g, hg, -⟩ := Option.map_eq_some_iff.1 hsig
  obtain ⟨m, hm, -⟩ := Option.bind_eq_some_iff.1 hg
  refine .other fun heq => ?_
  obtain ⟨hlt, -⟩ := Array.getElem?_eq_some_iff.1 hm
  rw [heq] at hlt
  exact Nat.lt_irrefl _ hlt

/-! ## Libraries of which one has the definitions in another order -/

section Push

variable {P : Span → Span → Prop} {lib : Library} {u u' : LoweredUnit} (h : u.Reordered P u')

include h

theorem LoweredUnit.Reordered.nodup_right : (u'.module.functions.map (·.name)).Nodup :=
  (h.functions.map_perm fun _ _ hf => hf.name).nodup_iff.1 h.nodup

/-- Functions of one name are alike. -/
theorem LoweredUnit.Reordered.function_like {i j : Nat} {name : String}
    (hi : (u.module.functions.map (·.name))[i]? = some name)
    (hj : (u'.module.functions.map (·.name))[j]? = some name) :
    ∃ f f', u.module.functions[i]? = some f ∧ u'.module.functions[j]? = some f' ∧
      f.Like (Callee.Renamed u.module.id (u.module.functions.map (·.name))
        (u'.module.functions.map (·.name))) f' := by
  rw [List.getElem?_map] at hi hj
  obtain ⟨f, hf, rfl⟩ := Option.map_eq_some_iff.1 hi
  obtain ⟨f', hf', hname⟩ := Option.map_eq_some_iff.1 hj
  obtain ⟨g, hg, hlike⟩ := h.functions.exists_right (List.mem_of_getElem? hf)
  have hsame : g = f' := List.inj_on_of_nodup_map h.nodup_right hg (List.mem_of_getElem? hf')
    (hlike.name.trans hname.symm)
  exact ⟨f, f', hf, hf', hsame ▸ hlike⟩

theorem LoweredUnit.Reordered.push_layouts (lib : Library) :
    (lib.push u'.module).layouts = (lib.push u.module).layouts :=
  Source.layouts_push_congr h.layouts h.structs.length_eq.symm

/-- **A library with a module mirrors one with its definitions in another order.** -/
theorem LoweredUnit.Reordered.mirrors {L : Laxity} (hid : u.module.id = lib.nextId)
    (hlib : lib.Typed L) :
    (lib.push u.module).Mirrors
      (FunctionHandle.Renamed u.module.id (u.module.functions.map (·.name))
      (u'.module.functions.map (·.name))) (lib.push u'.module) := by
  refine ⟨h.push_layouts lib, ?_, ?_⟩
  · rintro _ _ (⟨_, _⟩ | _) <;> rfl
  · rintro handle _ (@⟨i, j, name, hi, hj⟩ | hother)
    · obtain ⟨f, f', hf, hf', hlike⟩ := h.function_like hi hj
      rw [Library.function?, Library.function?, hid, Source.find?_push_nextId,
        Source.find?_push_nextId]
      show Option.Rel _ (u.module.functions[i]?) (u'.module.functions[j]?)
      rw [hf, hf']
      exact .some (hid ▸ hlike)
    · rw [hid] at hother
      rw [Library.function?, Library.function?, Source.find?_push_of_ne hother,
        Source.find?_push_of_ne hother]
      show Option.Rel _ (lib.function? handle) (lib.function? handle)
      cases hf : lib.function? handle with
      | none => exact .none
      | some f =>
        rw [hid]
        exact .some (Function.like_self fun slots code hbody => hlib.calls_earlier hf hbody _ _)

/-- Functions are found under the same names. -/
theorem LoweredUnit.Reordered.handle? (name : String) :
    Option.Rel (FunctionHandle.Renamed u.module.id (u.module.functions.map (·.name))
      (u'.module.functions.map (·.name)))
      (u.module.handle? name) (u'.module.handle? name) := by
  have hnames : name ∈ u.module.functions.map (·.name) ↔ name ∈ u'.module.functions.map (·.name) :=
    (h.functions.map_perm fun _ _ hf => hf.name).mem_iff
  rw [Module.handle?, Module.handle?, h.id]
  rcases hi : u.module.functionIndex? name with _ | i
  · have hnone : u'.module.functionIndex? name = none := by
      rw [Module.functionIndex?_eq_none_iff, ← hnames, ← Module.functionIndex?_eq_none_iff]
      exact hi
    rw [hnone]
    exact .none
  · rcases hj : u'.module.functionIndex? name with _ | j
    · rw [Module.functionIndex?_eq_none_iff, ← hnames] at hj
      exact absurd (List.mem_of_getElem? (Module.name_of_functionIndex? hi)) hj
    · exact .some (.own (Module.name_of_functionIndex? hi) (Module.name_of_functionIndex? hj))

theorem LoweredUnit.Reordered.module_reordered : u.module.Reordered u'.module :=
  ⟨h.id, h.deps, h.nodup,
    h.functions.map_perm fun _ _ hf => by rw [hf.name, hf.params, hf.result], h.structs, h.globals⟩

end Push

/-! ## Units -/

namespace Work

variable {w : Workspace} {unit unit' : SourceUnit} {f f' : Fragment} {deps : List Module}

theorem optionRel_imp {α β : Type} {R S : α → β → Prop} (hRS : ∀ a b, R a b → S a b) {a : Option α}
    {b : Option β} (h : Option.Rel R a b) : Option.Rel S a b := by
  cases h with
  | some hab => exact .some (hRS _ _ hab)
  | none => exact .none

/-- **A unit compiles to the same in whatever order its definitions come**, and however they are
grouped, as long as its globals keep their order. Either both units are refused, and change nothing,
unless the host gives up on one that has a struct that takes more than can be counted. Or both come
to modules with the same signatures, structs and globals, whose initialisers end alike: with the
same store or with the same fault. Then functions of one name do the same from every store, and so
do those of all other modules. -/
theorem compile_reordered (hw : w.Used) (hdeps : ∀ d ∈ deps, w.library.find? d.id = some d)
    (hread : unit.read = .ok f) (hread' : unit'.read = .ok f')
    (h : Reordered (definitions f.root) (definitions f'.root)) :
    (w.Refuses unit deps f.root ∧ w.Refuses unit' deps f'.root) ∨
      ∃ m m' : Module, m.Reordered m' ∧
        EndAlike (w.library.push m) (w.library.push m') (fun a b => a = m ∧ b = m')
          (fun e e' => e'.fault = e.fault) ((compile unit deps).run w)
          ((compile unit' deps).run w) ∧
        (w.library.push m').layouts = (w.library.push m).layouts ∧
        (∀ name, Option.Rel (fun handle handle' => ∀ args,
          Kiln.call (w.library.push m) handle args = Kiln.call (w.library.push m') handle' args)
            (m.handle? name) (m'.handle? name)) ∧
        ∀ handle args, handle.home ≠ m.id →
          Kiln.call (w.library.push m) handle args = Kiln.call (w.library.push m') handle args := by
  have hothers : ∀ m ∈ deps ++ [Module.base], m.id ≠ w.library.nextId := by
    intro m hm
    rcases List.mem_append.1 hm with hm | hm
    · exact Library.ne_nextId (hdeps m hm)
    · rw [List.mem_singleton.1 hm]
      exact Library.ne_nextId (hw.linked.base Module.base.id Module.base rfl)
  have hroots := h.rearranges
  have hlower := lower_of_read hread w.library deps
  have hlower' := lower_of_read hread' w.library deps
  rcases hunit : lowerUnit w.library unit.name deps f.root with e | u
  · rcases hunit' : lowerUnit w.library unit'.name deps f'.root with e' | u'
    · exact .inl ⟨hw.refuses hdeps hread hunit, hw.refuses hdeps hread' hunit'⟩
    · obtain ⟨u, haccepted, -⟩ := lowerUnit_reordered hothers hroots.flip hunit' unit.name
      rw [hunit] at haccepted
      cases haccepted
  · obtain ⟨u', hunit', hreordered⟩ := lowerUnit_reordered hothers hroots hunit unit'.name
    rw [hunit] at hlower
    rw [hunit'] at hlower'
    have hid := (module_of_lowerUnit hunit).1
    have hmirrors := hreordered.mirrors hid hw.typed
    refine .inr ⟨u.module, u'.module, hreordered.module_reordered, ?_, hreordered.push_layouts _,
      fun name => optionRel_imp (fun _ _ hrenamed => call_mirrored hmirrors hrenamed)
      (hreordered.handle? name),
      fun handle args hother => call_mirrored hmirrors (.other hother) args⟩
    refine compile_alike hlower hlower' hreordered.id hreordered.globals
      (hreordered.initialisers.imp ?_)
    intro i i' hi
    refine ⟨?_, fun _ _ => rfl⟩
    rw [hreordered.id, hi.slots]
    exact evaluate_mirrored hmirrors _ hi.code

/-- `(fun twice () i64 (* 2 (once))) (global start i64 (twice)) (fun once () i64 21)` -/
def forwardDefinitions : List Tree :=
  [.list [.word "fun", .word "twice", .list [], .word "i64",
      .list [.word "*", .number 2, .list [.word "once"]]],
    .list [.word "global", .word "start", .word "i64", .list [.word "twice"]],
    .list [.word "fun", .word "once", .list [], .word "i64", .number 21]]

/-- The definitions, one after the other. -/
def forwardUnit : Tree := .list (.word "do" :: forwardDefinitions)

/-- The definitions the other way round, in a group. -/
def backwardUnit : Tree := .list [.word "do", .list (.word "do" :: forwardDefinitions.reverse)]

theorem compile_reordered_backward : ∃ m m' w w',
    Workspace.afterUnit? forwardUnit = some (m, w) ∧
      Workspace.afterUnit? backwardUnit = some (m', w') ∧
      m.Reordered m' ∧ w'.store = w.store ∧
      Option.Rel (fun handle handle' =>
        ∀ args, Kiln.call w.library handle args = Kiln.call w'.library handle' args)
        (m.handle? "twice") (m'.handle? "twice") := by
  obtain ⟨m, w, hafter, -⟩ :=
    Workspace.exists_afterUnit forwardUnit (fun _ _ => true) (by decide +kernel)
  have hrun := Workspace.afterUnit?_eq_some hafter
  have hreordered : Reordered (definitions forwardUnit) (definitions backwardUnit) :=
    ⟨forwardDefinitions.reverse, (List.reverse_perm _).symm, rfl, by decide⟩
  rcases compile_reordered (.initial 4096 (.empty "/"))
      (fun d (hd : d ∈ []) => absurd hd List.not_mem_nil)
      (rfl : (SourceUnit.fragment "small" ⟨forwardUnit, ⟨"small", ""⟩⟩).read = .ok _)
      (rfl : (SourceUnit.fragment "small" ⟨backwardUnit, ⟨"small", ""⟩⟩).read = .ok _)
      hreordered with
    ⟨⟨_, _, hrefused, -⟩ | ⟨hrefused, -⟩, -⟩ | ⟨m₁, m', hmodules, hends, -, hcalls, -⟩
  · rw [hrun] at hrefused
    cases hrefused
  · rw [hrun] at hrefused
    cases hrefused
  · rw [hrun] at hends
    generalize hr : EStateM.Result.ok (Except.ok m) w = r at hends
    generalize hrun' :
      (compile (.fragment "small" ⟨backwardUnit, ⟨"small", ""⟩⟩) []).run _ = r' at hends
    cases hends with
    | value w₁ hvalues =>
      obtain ⟨rfl, rfl⟩ := hvalues
      cases hr
      exact ⟨_, _, _, _, hafter, Workspace.afterUnit?_of_run hrun', hmodules, rfl, hcalls "twice"⟩
    | error _ _ => cases hr
    | halt _ => cases hr

end Work

end Kiln
