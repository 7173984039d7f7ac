import Kiln.Proofs.Machine.Memory
import Kiln.Proofs.Typing.Linking
import Kiln.Proofs.Workspace.Failures
/-!
# Modules are isolated

A workspace is *used* when it comes about by compiling units against modules that are there and by
calling functions with any arguments whatever. In a used workspace, a call of a function of a module
assigns globals of that module and of those it depends on, however far, and of no others; compiling
a module, which runs its initialisers, does the same. And every assignment is made by code of the
module whose global it is, in a function or in an initialiser where it is found
(`Workspace.Used.isolates`). Who assigns what is told by signed runs, which are the runs of the
machine with the assignments written down.
-/

namespace Kiln

open Work

/-- Workspaces that come about by compiling and by calling as one likes. -/
inductive Workspace.Used : Workspace → Prop
  | initial (limit : Nat) (files : Files) : Used (.initial limit files)
  | compile {w w' : Workspace} {unit : SourceUnit} {deps : List Module}
      {r : Except CompileError Module} :
      Used w → (∀ d ∈ deps, w.library.find? d.id = some d) →
        (Work.compile unit deps).run w = .ok r w' → Used w'
  | call {w w' : Workspace} {handle : FunctionHandle} {args : List Value} {r : Except Fault Value} :
      Used w → (Work.call handle args).run w = .ok r w' → Used w'
  | elsewhere {w w' : Workspace} :
      Used w → w'.library = w.library → w'.store.globals = w.store.globals → Used w'

/-- Reached workspaces are used. -/
theorem Reached.used {w : Workspace} (h : Reached w) : w.Used := by
  induction h with
  | initial limit files => exact .initial limit files
  | compile _ hdeps hrun hw => exact .compile hw hdeps hrun
  | call _ _ _ hrun hw => exact .call hw hrun
  | elsewhere _ hlibrary hglobals hw => exact .elsewhere hw hlibrary hglobals

/-! ## Who assigns -/

/-- The assignment is made by a function of the module whose global it is, and found in its code. -/
def Assignment.ByFunction (a : Assignment) (lib : Library) : Prop :=
  ∃ handle f slots code place, a.author = .function handle ∧ handle.home = a.home ∧
    lib.function? handle = some f ∧ f.body = .code slots code ∧
    Code.Part (.setGlobal a.index place) code

/-- The assignment is made by an initialiser of the unit, to a global of the unit's module: it is
the first value of the initialiser's own global, or found in its code. -/
def Assignment.ByInitialiser (a : Assignment) (u : LoweredUnit) : Prop :=
  ∃ k init, a.author = .initialiser u.module.id k ∧ a.home = u.module.id ∧
    u.initialisers[k]? = some init ∧
    (a.index = k ∨ ∃ place, Code.Part (.setGlobal a.index place) init.code)

/-- The assignment is one that a run of the module `root` may make: its author is of the module
whose global it is, and that is `root` or a module that `root` depends on. -/
structure Assignment.Allowed (a : Assignment) (lib : Library) (root : ModuleId)
    (rightful : Assignment → Prop) :
    Prop where
  author : a.author.home = a.home
  rightful : rightful a
  reached : lib.Reaches root a.home

/-- From the store `s`, the run makes none but assignments that are allowed. They account for the
globals that it leaves, so modules that `root` does not depend on keep theirs. -/
structure SignedRun.Isolated {α : Type} (x : SignedRun α) (lib : Library) (root : ModuleId)
    (rightful : Assignment → Prop) (s : Store) : Prop where
  allowed : ∀ a ∈ x.made s, a.Allowed lib root rightful
  replayed : (x.unsigned.after s).globals = replay s.globals (x.made s)
  others : ∀ other, ¬lib.Reaches root other →
    (x.unsigned.after s).globals[other.index]? = s.globals[other.index]?

/-- **A run that signs only what is allowed is isolated.** -/
theorem Signs.isolated {α : Type} {x : SignedRun α} {y : Run α} {lib : Library} {root : ModuleId}
    {rightful : Assignment → Prop} (h : Signs (·.Allowed lib root rightful) x y) (s : Store) :
    x.Isolated lib root rightful s := by
  have hglobals : (x.unsigned.after s).globals = replay s.globals (x.made s) := by
    rw [h.unsigned]
    exact h.globals_after s
  refine ⟨h.of_mem_made, hglobals, fun other hother => ?_⟩
  rw [hglobals]
  refine getElem?_replay fun a ha heq => hother ?_
  rw [← heq]
  exact (h.of_mem_made a ha).reached

/-! ## Linked libraries sign what they should -/

section Linked

variable {lib : Library} (hlinked : lib.Linked) (hbase : Library.initial.Grows lib)
  {root : ModuleId} {P : Assignment → Prop}

/-- The functions of modules that are reached may be called, and those of the base library. -/
def Library.Callable (lib : Library) (root : ModuleId) (handle : FunctionHandle) : Prop :=
  lib.Reaches root handle.home ∨ handle.home = Module.base.id

/-- Linked code of a module that is reached calls functions that may be called. -/
theorem Code.Linked.callable {home : ModuleId} {c : Code} (hc : c.Linked lib home)
    (hhome : lib.Reaches root home) {callee : Callee} {args : List Code}
    (hpart : Code.Part (.call callee args) c) :
    lib.Callable root (callee.handle home) := by
  rcases hc callee args hpart with hown | hbase | hdep
  · rw [Library.Callable, hown]
    exact .inl hhome
  · exact .inr hbase
  · exact .inl (hhome.tail hdep)

include hlinked hbase

/-- **A linked library signs what is made by its functions**, within what is reached. -/
theorem Library.Linked.signable
    (hP : ∀ a : Assignment, a.ByFunction lib → a.author.home = a.home →
      lib.Reaches root a.home → P a) :
    lib.Signable P (lib.Callable root) := by
  intro handle f slots code hcallable hf hbody
  -- functions of the base library have no code, so the function is of a module that is reached
  have hreached : lib.Reaches root handle.home := hcallable.resolve_right fun hhome => by
    obtain ⟨op, hnative⟩ := Library.native_of_base hbase hhome hf
    rw [hbody] at hnative
    cases hnative
  refine ⟨fun hpart v => ?_,
    fun hpart => (hlinked handle f slots code hf hbody).callable hreached hpart⟩
  exact hP _ ⟨handle, f, slots, code, _, rfl, rfl, hf, hbody, hpart⟩ rfl hreached

end Linked

/-! ## Initialisers -/

/-- Gives globals of the module their first values, from `index` on. -/
def initialiseAll (lib : Library) (home : ModuleId) : Nat → List Initialiser → Run Unit
  | _, [] => pure ()
  | index, init :: inits => do
    let v ← evaluate lib home init.slots init.code
    modify (·.setGlobal home index v)
    initialiseAll lib home (index + 1) inits

/-- The same, where each initialiser signs what it assigns and the first value of its global. -/
def signedInitialiseAll (lib : Library) (home : ModuleId) : Nat → List Initialiser → SignedRun Unit
  | _, [] => pure ()
  | index, init :: inits => do
    let v ← signedEvaluate lib (.initialiser home index) home init.slots init.code
    SignedRun.assign ⟨.initialiser home index, home, index, v⟩
    signedInitialiseAll lib home (index + 1) inits

theorem signedInitialiseAll_signs {lib : Library} {P : Assignment → Prop}
    {callable : FunctionHandle → Prop} (hlib : lib.Signable P callable) {home : ModuleId} :
      ∀ {inits : List Initialiser} {index : Nat},
      (∀ k init, inits[k]? = some init →
        init.code.Signable P callable (.initialiser home (index + k)) home ∧
          ∀ v, P ⟨.initialiser home (index + k), home, index + k, v⟩) →
      Signs P (signedInitialiseAll lib home index inits) (initialiseAll lib home index inits)
  | [], _, _ => .pure ()
  | init :: inits, index, h => by
    obtain ⟨hcode, hfirst⟩ := h 0 init rfl
    refine (signedEvaluate_signs hlib hcode init.slots).bind fun v => ?_
    refine (Signs.assign (a := ⟨.initialiser home index, home, index, v⟩) (hfirst v)).bind
      fun _ => ?_
    refine signedInitialiseAll_signs hlib fun k later hk => ?_
    have hlater := h (k + 1) later hk
    rwa [← Nat.add_assoc, Nat.add_right_comm] at hlater

/-- **The initialisers of a module run one after the other**, to the end or to a fault. -/
theorem Work.initialiseFrom_run {m : Module} {origin : Origin} {r : Except CompileError Unit}
    {w' : Workspace} :
    ∀ {inits : List Initialiser} {index : Nat} {w : Workspace},
      (initialiseFrom m origin index inits).run w = .ok r w' →
        (r = .ok () ∧ initialiseAll w.library m.id index inits w.store = .ok () w'.store) ∨
          ∃ e f, r = .error e ∧
            initialiseAll w.library m.id index inits w.store = .error (.fault f) w'.store
  | [], _, _, h => by
    cases h
    exact .inl ⟨rfl, rfl⟩
  | init :: inits, index, w, h => by
    rcases initialiseFrom_outcome h with ⟨w₁, hinit, hrest⟩ | ⟨f, global, hinit, rfl⟩
    · rcases initialise_outcome hinit with ⟨v, s, -, hrun, rfl⟩ | ⟨_, _, hcases, -⟩
      · have hfirst : initialiseAll w.library m.id index (init :: inits) w.store =
            initialiseAll w.library m.id (index + 1) inits (s.setGlobal m.id index v) :=
              Run.bind_ok hrun
        rw [hfirst]
        exact initialiseFrom_run hrest
      · cases hcases
    · rcases initialise_outcome hinit with ⟨_, _, hcases, -⟩ | ⟨f', s, -, hrun, rfl⟩
      · cases hcases
      · exact .inr ⟨_, f', rfl, Run.bind_error hrun⟩

/-- **A unit is refused and nothing changes, or its initialisers run** in a store with room for its
globals, and the store that they leave is that of the workspace. -/
theorem Work.compile_initialises {unit : SourceUnit} {deps : List Module}
    {r : Except CompileError Module} {w w' : Workspace} (h : (compile unit deps).run w = .ok r w') :
    w' = w ∨
      ∃ u origin, unit.lower w.library deps = .ok (u, origin) ∧
        w'.library = w.library.push u.module ∧
      ((r = .ok u.module ∧
        initialiseAll w'.library u.module.id 0 u.initialisers (w.store.install u.module) =
          .ok () w'.store) ∨
        ∃ e f, r = .error e ∧
          initialiseAll w'.library u.module.id 0 u.initialisers (w.store.install u.module) =
          .error (.fault f) w'.store) := by
  rcases compile_outcome h with ⟨_, -, hsame⟩ | ⟨u, origin, r', hlower, hlibrary, hinit, hr⟩
  · exact .inl hsame
  refine .inr ⟨u, origin, hlower, hlibrary, ?_⟩
  rw [hlibrary]
  rcases initialiseFrom_run hinit with ⟨rfl, hrun⟩ | ⟨e, f, rfl, hrun⟩
  · rcases hr with ⟨_, hcases, -⟩ | ⟨-, rfl⟩
    · cases hcases
    · exact .inl ⟨rfl, hrun⟩
  · rcases hr with ⟨e', hcases, rfl⟩ | ⟨hcases, -⟩
    · exact .inr ⟨e', f, rfl, hrun⟩
    · cases hcases

/-- However initialisers end, the store that is left is the one that they end with. -/
theorem after_of_ends {α β ε : Type} {x : Run α} {s s' : Store} {a : α} {r : Except ε β} {b : β}
    (h : (r = .ok b ∧ x s = .ok a s') ∨ ∃ e f, r = .error e ∧ x s = .error (.fault f) s') :
    x.after s = s' := by
  rcases h with ⟨-, hrun⟩ | ⟨_, _, -, hrun⟩
  · exact Run.after_of_ok hrun
  · exact Run.after_of_error hrun

/-! ## Used workspaces -/

/-- All code of the workspace is linked, and its store has room for each module. -/
structure Workspace.Linked (w : Workspace) : Prop where
  base : Library.initial.Grows w.library
  grounded : w.library.layouts.Grounded
  linked : w.library.Linked
  size : w.store.globals.size = w.library.modules.size

variable {w w' : Workspace}

/-- A call of a function assigns what the functions that it reaches may. -/
theorem Workspace.Linked.calls_sign (hw : w.Linked) (handle : FunctionHandle) (args : List Value) :
    Signs (·.Allowed w.library handle.home (·.ByFunction w.library))
      (signedCall w.library handle args) (Kiln.call w.library handle args) :=
  signedCall_signs (hw.linked.signable hw.base
    fun _ hby hauthor hreached => ⟨hauthor, hby, hreached⟩) (.inl .refl) args

section Lowered

variable {name : String} {deps : List Module} {root : Tree} {u : LoweredUnit}
  (hdeps : ∀ d ∈ deps, w.library.find? d.id = some d)
  (hlower : lowerUnit w.library name deps root = .ok u)

include hdeps hlower

/-- A unit that is accepted leaves the library linked, and all that it is linked to. -/
theorem Workspace.Linked.push (hw : w.Linked) : (w.library.push u.module).Linked ∧
    Library.initial.Grows (w.library.push u.module) ∧
      (w.library.push u.module).layouts.Grounded := by
  obtain ⟨names, forms, globals, hl⟩ := lowered_of_lowerUnit hlower
  obtain ⟨-, hdepends, -⟩ := module_of_lowerUnit hlower
  have hΓ := hl.grounded hw.grounded hdeps
  rw [hl.layouts] at hΓ
  exact ⟨hw.linked.push hl hdepends hdeps hw.base hw.grounded,
    hw.base.trans (Library.grows_push _ _), hΓ⟩

/-- The initialisers of a unit assign what they and the functions that they reach may. -/
theorem Workspace.Linked.initialisers_sign (hw : w.Linked) :
    Signs (·.Allowed (w.library.push u.module) u.module.id fun a =>
        a.ByFunction (w.library.push u.module) ∨ a.ByInitialiser u)
      (signedInitialiseAll (w.library.push u.module) u.module.id 0 u.initialisers)
      (initialiseAll (w.library.push u.module) u.module.id 0 u.initialisers) := by
  obtain ⟨names, forms, globals, hl⟩ := lowered_of_lowerUnit hlower
  obtain ⟨-, hdepends, -⟩ := module_of_lowerUnit hlower
  obtain ⟨hlinked, hbase, -⟩ := hw.push hdeps hlower
  refine signedInitialiseAll_signs (hlinked.signable hbase fun _ hby hauthor hreached =>
    ⟨hauthor, .inl hby, hreached⟩) fun k init hk => ?_
  have hcode :=
    hl.initialisers_linked hdepends hdeps hw.base hw.grounded init (List.mem_of_getElem? hk)
  rw [Nat.zero_add]
  refine ⟨⟨fun hpart v => ?_, fun hpart => hcode.callable .refl hpart⟩, fun v => ?_⟩
  · exact ⟨rfl, .inr ⟨k, init, rfl, rfl, hk, .inr ⟨_, hpart⟩⟩, .refl⟩
  · exact ⟨rfl, .inr ⟨k, init, rfl, rfl, hk, .inl rfl⟩, .refl⟩

end Lowered

/-- **Compiling keeps a workspace linked**, whatever comes of it. -/
theorem Workspace.Linked.compile (hw : w.Linked) {unit : SourceUnit} {deps : List Module}
    {r : Except CompileError Module} (hdeps : ∀ d ∈ deps, w.library.find? d.id = some d)
    (h : (Work.compile unit deps).run w = .ok r w') : w'.Linked := by
  rcases compile_initialises h with rfl | ⟨u, origin, hlower, hlibrary, hend⟩
  · exact hw
  obtain ⟨f, -, hunit⟩ := lower_outcome hlower
  obtain ⟨hlinked, hbase, hΓ⟩ := hw.push hdeps hunit
  have hsigns := hw.initialisers_sign hdeps hunit
  rw [hlibrary] at hend
  refine ⟨hlibrary ▸ hbase, hlibrary ▸ hΓ, hlibrary ▸ hlinked, ?_⟩
  -- assignments leave the number of modules there is room for
  rw [← after_of_ends hend, hsigns.globals_after, size_replay, hlibrary,
    Store.install, Library.push, Array.size_push, Array.size_push, hw.size]

theorem Workspace.Linked.call (hw : w.Linked) {handle : FunctionHandle} {args : List Value}
    {r : Except Fault Value} (h : (Work.call handle args).run w = .ok r w') : w'.Linked := by
  obtain ⟨s, rfl, hcases⟩ := call_outcome h
  have hafter : (Kiln.call w.library handle args).after w.store = s := by
    rcases hcases with ⟨_, -, hrun⟩ | ⟨_, -, hrun⟩
    · exact Run.after_of_ok hrun
    · exact Run.after_of_error hrun
  refine ⟨hw.base, hw.grounded, hw.linked, ?_⟩
  have hsize := congrArg Array.size ((hw.calls_sign handle args).globals_after w.store)
  rw [hafter, size_replay] at hsize
  exact hsize.trans hw.size

/-- **A used workspace is linked.** -/
theorem Workspace.Used.linked (h : w.Used) : w.Linked := by
  induction h with
  | initial limit files => exact ⟨.refl _, Library.grounded_initial, Library.linked_initial, rfl⟩
  | compile _ hdeps hrun hw => exact hw.compile hdeps hrun
  | call _ hrun hw => exact hw.call hrun
  | elsewhere _ hlibrary hglobals hw =>
    refine ⟨?_, ?_, ?_, ?_⟩ <;> rw [hlibrary]
    · exact hw.base
    · exact hw.grounded
    · exact hw.linked
    · rw [hglobals]
      exact hw.size

/-- **What holds of the libraries of used workspaces**: whatever holds of the base library, and
still holds when the module of a unit that is accepted is put in. -/
theorem Workspace.Used.library_induction {motive : Library → Prop} (h : w.Used)
    (hbase : motive .initial)
      (hpush : ∀ {w : Workspace} {name : String} {deps : List
        Module} {root : Tree} {u : LoweredUnit}, w.Used →
      motive w.library → (∀ d ∈ deps, w.library.find? d.id = some d) →
        lowerUnit w.library name deps root = .ok u →
        motive (w.library.push u.module)) : motive w.library := by
  induction h with
  | initial => exact hbase
  | compile hused hdeps hrun hw =>
    rcases compile_initialises hrun with rfl | ⟨u, origin, hlower, hlibrary, -⟩
    · exact hw
    · obtain ⟨f, -, hunit⟩ := lower_outcome hlower
      exact hlibrary ▸ hpush hused hw hdeps hunit
  | call _ hrun hw =>
    obtain ⟨s, rfl, -⟩ := call_outcome hrun
    exact hw
  | elsewhere _ hlibrary _ hw => exact hlibrary ▸ hw

/-- **Modules are isolated.** In a used workspace a call of any function, with any arguments and
however it ends, is a signed run that assigns globals of the function's module and of modules that
this depends on only, each by a function of the global's own module. Compiling a unit either refuses
it and changes nothing, or runs initialisers that do the same for the unit's module, whether all of
them end with a value or one with a fault; and then it is these initialisers and functions that
assign. -/
theorem Workspace.Used.isolates (h : w.Used) :
    (∀ handle args, (signedCall w.library handle args).unsigned = Kiln.call w.library handle args ∧
      (signedCall w.library handle args).Isolated w.library handle.home
      (·.ByFunction w.library) w.store) ∧
    ∀ unit deps r w', (∀ d ∈ deps, w.library.find? d.id = some d) →
      (Work.compile unit deps).run w = .ok r w' →
        w' = w ∨ ∃ u origin, unit.lower w.library deps = .ok (u, origin) ∧
          w'.library = w.library.push u.module ∧ u.module.deps = deps.map (·.id) ∧
          let x := signedInitialiseAll w'.library u.module.id 0 u.initialisers
          let s := w.store.install u.module
          ((r = .ok u.module ∧ x.unsigned s = .ok () w'.store) ∨
            ∃ e f, r = .error e ∧ x.unsigned s = .error (.fault f) w'.store) ∧
          x.Isolated w'.library u.module.id
          (fun a => a.ByFunction w'.library ∨ a.ByInitialiser u) s ∧
          ∀ other, ¬w'.library.Reaches u.module.id other →
            w'.store.globals[other.index]? = w.store.globals[other.index]? := by
  have hw := h.linked
  refine ⟨fun handle args =>
    ⟨(hw.calls_sign handle args).unsigned, (hw.calls_sign handle args).isolated _⟩,
      fun unit deps r w' hdeps hrun => ?_⟩
  refine (compile_initialises hrun).imp_right fun ⟨u, origin, hlower, hlibrary, hend⟩ => ?_
  obtain ⟨f, -, hunit⟩ := lower_outcome hlower
  have hsigns := hw.initialisers_sign hdeps hunit
  rw [← hlibrary] at hsigns
  obtain ⟨hid, hdepends, -⟩ := module_of_lowerUnit hunit
  have hisolated := hsigns.isolated (w.store.install u.module)
  refine ⟨u, origin, hlower, hlibrary, hdepends, ?_, hisolated, fun other hother => ?_⟩
  · rw [hsigns.unsigned]
    exact hend
  -- room was made for the globals of the unit's own module only
  · have hafter := hisolated.others other hother
    rw [hsigns.unsigned, after_of_ends hend] at hafter
    rw [hafter, Store.install, Array.getElem?_push, if_neg ?_]
    intro heq
    refine hother ?_
    rw [show other = u.module.id from hid ▸ congrArg ModuleId.mk (heq.trans hw.size)]
    exact .refl

/-! ## A call across modules -/

/-- The module of a second unit that is compiled against that of the first, and the workspace behind
it. -/
def Workspace.afterSecond? (w : Workspace) (m : Module) (root : Tree) :
    Option (Module × Workspace) :=
  match (Work.compile (.fragment "second" ⟨root, ⟨"second", ""⟩⟩) [m]).run w with
  | .ok (.ok m') w' => some (m', w')
  | _ => none

theorem Workspace.Used.afterSecond {m m' : Module} {root : Tree} (h : w.Used)
    (hm : w.library.find? m.id = some m) (hsecond : w.afterSecond? m root = some (m', w')) :
    w'.Used := by
  unfold afterSecond? at hsecond
  split at hsecond
  · rename_i hrun
    cases hsecond
    exact .compile h (fun d hd => List.mem_singleton.1 hd ▸ hm) hrun
  · cases hsecond

/-- `(fun strike () i64 (hit) (hit))` -/
def strikeUnit : Tree :=
  .list [.word "fun", .word "strike", .list [], .word "i64", .list [.word "hit"],
    .list [.word "hit"]]

theorem Workspace.Used.isolates_strike : ∃ m w m' w', Workspace.afterUnit? hitsUnit = some (m, w) ∧
    w.afterSecond? m strikeUnit = some (m', w') ∧ w'.Used ∧
      ((signedCall w'.library ⟨m'.id, 0⟩ []).made w'.store).map (·.author) =
        [.function ⟨m.id, 0⟩, .function ⟨m.id, 0⟩] ∧
      (signedCall w'.library ⟨m'.id, 0⟩ []).Isolated w'.library m'.id
      (·.ByFunction w'.library) w'.store := by
  obtain ⟨m, w, hafter, hcheck⟩ := Workspace.exists_afterUnit hitsUnit
    (fun m w => (w.afterSecond? m strikeUnit).any fun p =>
      ((signedCall p.2.library ⟨p.1.id, 0⟩ []).made p.2.store).map (·.author) ==
        [.function ⟨m.id, 0⟩, .function ⟨m.id, 0⟩]) (by decide +kernel)
  obtain ⟨⟨m', w'⟩, hsecond, hmade⟩ := (Option.any_eq_true _ _).1 hcheck
  have hm : w.library.find? m.id = some m := by
    obtain ⟨hid, -, hlibrary⟩ := Work.module_of_compile (Workspace.afterUnit?_eq_some hafter)
    rw [hlibrary, hid]
    exact Source.find?_push_nextId _ _
  have hused : w'.Used := .afterSecond (Reached.afterUnit hafter).used hm hsecond
  exact ⟨m, w, m', w', hafter, hsecond, hused, beq_iff_eq.1 hmade,
    (hused.isolates.1 ⟨m'.id, 0⟩ []).2⟩

end Kiln
