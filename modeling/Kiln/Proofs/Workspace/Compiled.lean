import Kiln.Container.Declare
import Kiln.Proofs.Typing.Packing
/-!
# What a workspace holds after compiling

Whatever is compiled is put behind the modules that are there, and these stay as they are
(`compile_ok`): a library grows at its end alone (`Library.Grows`). A container that could be
declared is a unit that was lowered and compiled (`declareWrapper_ok`). The other way round, a unit
that is lowered is compiled if nothing but constants are to be evaluated for its globals
(`compile_run`).
-/

namespace Kiln

namespace Library

/-- Every module of the one library is a module of the other, under the same number. -/
def Grows (lib later : Library) : Prop :=
  ∀ id m, lib.find? id = some m → later.find? id = some m

variable {lib later last : Library}

theorem Grows.refl (lib : Library) : lib.Grows lib := fun _ _ h => h

theorem Grows.trans (h : lib.Grows later) (h' : later.Grows last) : lib.Grows last :=
  fun id m hm => h' id m (h id m hm)

theorem grows_push (lib : Library) (m : Module) : lib.Grows (lib.push m) := by
  intro id found h
  obtain ⟨hlt, -⟩ := Array.getElem?_eq_some_iff.1 h
  exact (Array.getElem?_push_lt hlt).trans ((Array.getElem?_eq_getElem hlt).symm.trans h)

/-- Structs keep their layouts. -/
theorem Grows.layouts (h : lib.Grows later) : lib.layouts.Within later.layouts := by
  intro ref l hl
  obtain ⟨m, hm, hlayout⟩ := Option.bind_eq_some_iff.1 hl
  exact Option.bind_eq_some_iff.2 ⟨m, h _ m hm, hlayout⟩

end Library

/-- A row of runs that gave a value comes apart. -/
theorem ok_of_run_bind {α β ε σ : Type} {x : EStateM ε σ α} {k : α → EStateM ε σ β}
    {b : β} {s s' : σ} (h : (x >>= k) s = .ok b s') :
    ∃ a s₁, x s = .ok a s₁ ∧ k a s₁ = .ok b s' := by
  change EStateM.bind x k s = .ok b s' at h
  unfold EStateM.bind at h
  rcases hx : x s with ⟨a, s₁⟩ | ⟨e, s₁⟩
  · rw [hx] at h
    exact ⟨a, s₁, rfl, h⟩
  · rw [hx] at h
    cases h

namespace Work

variable {α β ε : Type} {w w' : Workspace}

/-- **Steps of work that all went well come apart.** -/
theorem run_ok_of_bind {x : ExceptT ε Work α} {f : α → ExceptT ε Work β} {b : β}
    (h : (x >>= f).run w = .ok (.ok b) w') :
    ∃ a w₁, x.run w = .ok (.ok a) w₁ ∧ (f a).run w₁ = .ok (.ok b) w' := by
  have hbind : EStateM.bind x.run (ExceptT.bindCont f) w = .ok (.ok b) w' := h
  unfold EStateM.bind at hbind
  rcases hx : x.run w with ⟨e | a, w₁⟩ | ⟨e, w₁⟩
  · rw [hx] at hbind
    cases hbind
  · rw [hx] at hbind
    exact ⟨a, w₁, rfl, hbind⟩
  · rw [hx] at hbind
    cases hbind

/-- A step that went well hands its value on. -/
theorem run_bind_ok {w₁ : Workspace} {x : ExceptT ε Work α} {f : α → ExceptT ε Work β} {a : α}
    (h : x.run w = .ok (.ok a) w₁) : (x >>= f).run w = (f a).run w₁ := by
  have hbind : (x >>= f).run w = EStateM.bind x.run (ExceptT.bindCont f) w := rfl
  rw [hbind, EStateM.bind, h]
  rfl

/-- What was given already is handed on. -/
theorem run_ofExcept (a : α) :
    (MonadExcept.ofExcept (.ok a : Except ε α) : ExceptT ε Work α).run w = .ok (.ok a) w :=
  rfl

/-- A step that failed ends a row of steps. -/
theorem run_bind_error {x : ExceptT ε Work α} {f : α → ExceptT ε Work β} {e : ε}
    (h : x.run w = .ok (.error e) w') : (x >>= f).run w = .ok (.error e) w' := by
  have hbind : (x >>= f).run w = EStateM.bind x.run (ExceptT.bindCont f) w := rfl
  rw [hbind, EStateM.bind, h]
  rfl

/-- A step that ends all work ends the row. -/
theorem run_bind_halt {x : ExceptT ε Work α} {f : α → ExceptT ε Work β} {h : Halt}
    (hx : x.run w = .error h w') : (x >>= f).run w = .error h w' := by
  have hbind : (x >>= f).run w = EStateM.bind x.run (ExceptT.bindCont f) w := rfl
  rw [hbind, EStateM.bind, hx]

/-- What runs on the machine adds no module. -/
theorem perform_library {run : Run α} {a : Except Fault α} (h : (perform run).run w = .ok a w') :
    w'.library = w.library := by
  dsimp only [perform, ExceptT.mk, ExceptT.run] at h
  split at h
  · cases h
    rfl
  · cases h
    rfl
  · cases h

theorem initialise_library {m : Module} {index : Nat} {init : Initialiser}
    (h : (initialise m index init).run w = .ok (.ok ()) w') : w'.library = w.library := by
  obtain ⟨_, _, hget, h⟩ := run_ok_of_bind h
  cases hget
  obtain ⟨v, w₁, hperform, h⟩ := run_ok_of_bind h
  have hlibrary := perform_library hperform
  cases h
  exact hlibrary

theorem initialiseFrom_library {m : Module} {origin : Origin} :
    ∀ {inits : List Initialiser} {index : Nat} {w : Workspace},
      (initialiseFrom m origin index inits).run w = .ok (.ok ()) w' → w'.library = w.library
  | [], _, w, h => by
    cases h
    rfl
  | init :: inits, index, w, h => by
    obtain ⟨a, w₁, hrun, h⟩ := run_ok_of_bind h
    rcases a with f | ⟨⟩
    · cases h
    · have hinit : (initialise m index init).run w = .ok (.ok ()) w₁ := by
        have hlift : EStateM.bind (initialise m index init).run
            (fun a => (pure (.ok a) : Work (Except CompileError _))) w = .ok (.ok (.ok ())) w₁ :=
            hrun
        unfold EStateM.bind at hlift
        rcases hx : (initialise m index init).run w with ⟨a, w₂⟩ | ⟨e, w₂⟩
        · rw [hx] at hlift
          cases hlift
          rfl
        · rw [hx] at hlift
          cases hlift
      rw [initialiseFrom_library h, initialise_library hinit]

/-- What comes of refusing a unit: the error, unless the host itself cannot go on. -/
def refusal (e : CompileError) (w : Workspace) :
    EStateM.Result Halt Workspace (Except CompileError α) :=
  match e.fault.halt? with
  | some h => .error h w
  | none => .ok (.error e) w

theorem run_giveUp (e : CompileError) :
    (giveUp e : ExceptT CompileError Work α).run w = refusal e w := by
  unfold giveUp refusal
  cases e.fault.halt? <;> rfl

/-- A unit that is refused changes nothing, and what is reported is why. -/
theorem refusal_outcome {e : CompileError} {r : Except CompileError α}
    (h : refusal e w = .ok r w') :
    r = .error e ∧ w' = w := by
  unfold refusal at h
  split at h <;> cases h
  exact ⟨rfl, rfl⟩

/-- **What was compiled is the unit that was lowered**, behind the modules there were before. -/
theorem compile_ok {unit : SourceUnit} {deps : List Module} {m : Module}
    (h : (compile unit deps).run w = .ok (.ok m) w') :
    ∃ lowered origin, unit.lower w.library deps = .ok (lowered, origin) ∧ m = lowered.module ∧
      w'.library = w.library.push m := by
  obtain ⟨_, _, hget, h⟩ := run_ok_of_bind h
  cases hget
  rcases hlower : unit.lower w.library deps with e | ⟨lowered, origin⟩
  · rw [hlower] at h
    cases (refusal_outcome ((run_giveUp e).symm.trans h)).1
  · rw [hlower] at h
    obtain ⟨_, w₁, hinstall, h⟩ := run_ok_of_bind h
    cases hinstall
    obtain ⟨_, w₂, hinit, h⟩ := run_ok_of_bind h
    cases h
    exact ⟨lowered, origin, rfl, rfl, initialiseFrom_library hinit⟩

theorem run_of_compileGenerated {unit : SourceUnit} {deps : List Module} {m : Module}
    (h : (compileGenerated unit deps).run w = .ok (.ok m) w') :
    (compile unit deps).run w = .ok (.ok m) w' := by
  have hrun : EStateM.bind (compile unit deps).run
      (fun a => (pure (a.mapError .compile) : Work (Except ContainerError Module))) w =
        .ok (.ok m) w' := h
  unfold EStateM.bind at hrun
  rcases hx : (compile unit deps).run w with ⟨e | a, w₁⟩ | ⟨e, w₁⟩
  · rw [hx] at hrun
    cases hrun
  · rw [hx] at hrun
    cases hrun
    rfl
  · rw [hx] at hrun
    cases hrun

/-- **A wrapper that could be declared is its unit, compiled against nothing**, and entered in the
registry. -/
theorem declareWrapper_compiled {name : String} {inner : Fragment} {m : Module}
    (h : (declareWrapper name inner).run w = .ok (.ok m) w') :
    ∃ unit type w₁, Container.wrapperUnit name inner = .ok (unit, type) ∧
      (compile unit []).run w = .ok (.ok m) w₁ ∧ w'.library = w₁.library ∧ w'.store = w₁.store := by
  obtain ⟨_, _, hget, h⟩ := run_ok_of_bind h
  cases hget
  split at h
  · cases h
  · obtain ⟨⟨unit, type⟩, w₁, hunit, h⟩ := run_ok_of_bind h
    rcases hu : Container.wrapperUnit name inner with e | ⟨unit', type'⟩
    · rw [hu] at hunit
      cases hunit
    · rw [hu] at hunit
      cases hunit
      obtain ⟨m', w₂, hcompile, h⟩ := run_ok_of_bind h
      cases h
      exact ⟨unit, type, w₂, rfl, run_of_compileGenerated hcompile, rfl, rfl⟩

/-- The unit of the wrapper was lowered, and its module put behind the others. -/
theorem declareWrapper_ok {name : String} {inner : Fragment} {m : Module}
    (h : (declareWrapper name inner).run w = .ok (.ok m) w') :
    ∃ unit type lowered origin, Container.wrapperUnit name inner = .ok (unit, type) ∧
      unit.lower w.library [] = .ok (lowered, origin) ∧ m = lowered.module ∧
      w'.library = w.library.push m := by
  obtain ⟨unit, type, w₁, hunit, hcompile, hlibrary, -⟩ := declareWrapper_compiled h
  obtain ⟨lowered, origin, hlower, hm, hpush⟩ := compile_ok hcompile
  exact ⟨unit, type, lowered, origin, hunit, hlower, hm, hlibrary.trans hpush⟩

/-- A step that goes on as well as its handler does, where that ends with an error always. -/
theorem run_of_tryCatch {x : ExceptT ε Work α} {handler : ε → ExceptT ε Work α} {a : α}
    (hhandler : ∀ e w w', (handler e).run w ≠ .ok (.ok a) w')
    (h : (tryCatch x handler).run w = .ok (.ok a) w') : x.run w = .ok (.ok a) w' := by
  rw [ExceptT.run_tryCatch] at h
  have hrun : EStateM.bind x.run _ w = EStateM.Result.ok (Except.ok a) w' := h
  unfold EStateM.bind at hrun
  rcases hx : x.run w with ⟨e | b, w₁⟩ | ⟨e, w₁⟩
  · rw [hx] at hrun
    exact absurd hrun (hhandler e w₁ w')
  · rw [hx] at hrun
    cases hrun
    rfl
  · rw [hx] at hrun
    cases hrun

/-- What is attempted and succeeds needs no handler. -/
theorem run_tryCatch_ok {x : ExceptT ε Work α} {handler : ε → ExceptT ε Work α} {a : α}
    (h : x.run w = .ok (.ok a) w') : (tryCatch x handler).run w = .ok (.ok a) w' := by
  rw [ExceptT.run_tryCatch]
  show EStateM.bind x.run _ w = _
  rw [EStateM.bind, h]
  rfl

/-- **An array that could be declared is a wrapper around its header, and the unit of its
operations, compiled against the wrapper.** -/
theorem declareArray_compiled {elem : TypeExpr} {m wrapper : Module}
    (h : (declareArray elem).run w = .ok (.ok (m, wrapper)) w') :
    ∃ header operations w₁ w₂,
      Container.arrayParts elem.arrayName elem = .ok (header, operations) ∧
      (declareWrapper elem.arrayName header).run w = .ok (.ok wrapper) w₁ ∧
      (compile (.fragment (elem.arrayName ++ "_ops") operations) [wrapper]).run w₁ =
      .ok (.ok m) w₂ ∧
      w'.library = w₂.library ∧ w'.store = w₂.store := by
  obtain ⟨_, _, hget, h⟩ := run_ok_of_bind h
  cases hget
  dsimp only at h
  split at h
  · cases h
  · obtain ⟨⟨header, operations⟩, _, hparts, h⟩ := run_ok_of_bind h
    rcases hp : Container.arrayParts elem.arrayName elem with e | parts
    · rw [hp] at hparts
      cases hparts
    · rw [hp] at hparts
      cases hparts
      obtain ⟨wrapper', w₁, hwrapper, h⟩ := run_ok_of_bind h
      obtain ⟨m', w₂, hcaught, h⟩ := run_ok_of_bind h
      cases h
      have hcompile := run_of_tryCatch (fun e w w' hrun => by cases hrun) hcaught
      exact ⟨header, operations, w₁, w₂, rfl, hwrapper, run_of_compileGenerated hcompile, rfl, rfl⟩

/-! ## Units whose globals are constants -/

/-- Work as the first step of a row hands its value on. -/
theorem run_lift_bind {w₁ : Workspace} {x : Work α} {f : α → ExceptT ε Work β} {a : α}
    (h : x w = .ok a w₁) :
    ((liftM x : ExceptT ε Work α) >>= f).run w = (f a).run w₁ := by
  have hlift : (liftM x : ExceptT ε Work α).run w = .ok (.ok a) w₁ := by
    show EStateM.bind x (fun a => (pure (.ok a) : Work (Except ε α))) w = _
    rw [EStateM.bind, h]
    rfl
  exact run_bind_ok hlift

/-- A constant is evaluated to itself. -/
theorem evaluate_const (lib : Library) (home : ModuleId) (slots : Nat) (v : Value) (store : Store) :
    evaluate lib home slots (.const v) store = .ok v store := by
  -- for any depth: nothing may compute all the levels that there are
  have heval : ∀ depth fr, 0 < depth → eval lib depth home (.const v) fr store = .ok (v, fr) store
    | depth + 1, fr, _ => rfl
  have hpositive : 0 < maxDepth := by decide
  unfold evaluate
  generalize maxDepth = depth at hpositive ⊢
  show EStateM.bind (eval lib depth home (.const v) (List.replicate slots .unit)) _ store = _
  rw [EStateM.bind, heval _ _ hpositive]
  rfl

theorem perform_run {run : Run α} {a : α} {store : Store} (h : run w.store = .ok a store) :
    (perform run).run w = .ok (.ok a) { w with store } := by
  dsimp only [perform, ExceptT.mk, ExceptT.run]
  rw [h]

/-- A global that is initialised with a constant gets it. -/
theorem initialise_run {m : Module} {index : Nat} {init : Initialiser} {v : Value}
    (hconst : init.code = .const v) :
    (initialise m index init).run w =
    .ok (.ok ()) { w with store := w.store.setGlobal m.id index v } := by
  have hvalue := evaluate_const w.library m.id init.slots v w.store
  rw [← hconst] at hvalue
  have hrun : (initialise m index init).run w = _ := run_bind_ok rfl
  rw [hrun, run_bind_ok (perform_run hvalue)]
  rfl

/-- Globals that are initialised with constants get them. -/
theorem initialiseFrom_constants (m : Module) (origin : Origin) :
    ∀ {inits : List Initialiser} (index : Nat) (w : Workspace),
      (∀ init ∈ inits, ∃ v, init.code = .const v) →
      ∃ w', (initialiseFrom m origin index inits).run w = .ok (.ok ()) w'
  | [], _, w, _ => ⟨w, rfl⟩
  | init :: inits, index, w, hconst => by
    obtain ⟨v, hv⟩ := hconst init List.mem_cons_self
    obtain ⟨w', hrest⟩ := initialiseFrom_constants m origin (index + 1)
      { w with store := w.store.setGlobal m.id index v }
      fun init hinit => hconst init (List.mem_cons_of_mem _ hinit)
    exact ⟨w', (run_lift_bind (initialise_run hv)).trans hrest⟩

/-- **A unit that is lowered and initialises its globals with constants is compiled.** -/
theorem compile_run {unit : SourceUnit} {deps : List Module} {lowered : LoweredUnit}
    {origin : Origin} (hlower : unit.lower w.library deps = .ok (lowered, origin))
    (hconst : ∀ init ∈ lowered.initialisers, ∃ v, init.code = .const v) :
    ∃ w', (compile unit deps).run w = .ok (.ok lowered.module) w' := by
  have hrun : (compile unit deps).run w = _ := run_bind_ok rfl
  rw [hlower] at hrun
  obtain ⟨w₁, hinits⟩ := initialiseFrom_constants lowered.module origin 0 _ hconst
  exact ⟨w₁, hrun.trans ((run_bind_ok rfl).trans (run_bind_ok hinits))⟩

/-- What is generated is compiled as anything is. -/
theorem compileGenerated_run {unit : SourceUnit} {deps : List Module} {m : Module}
    (h : (compile unit deps).run w = .ok (.ok m) w') :
    (compileGenerated unit deps).run w = .ok (.ok m) w' := by
  show EStateM.bind (compile unit deps).run _ w = _
  rw [EStateM.bind, h]
  rfl

/-- A wrapper is declared when its name is new and its unit can be lowered. -/
theorem declareWrapper_run {name : String} {inner : Fragment} {unit : SourceUnit}
    {type : TypeExpr} {lowered : LoweredUnit} {origin : Origin}
    (hnew : w.registry.wrappers.contains name = false)
    (hunit : Container.wrapperUnit name inner = .ok (unit, type))
    (hlower : unit.lower w.library [] = .ok (lowered, origin))
    (hinits : lowered.initialisers = []) :
    ∃ w', (declareWrapper name inner).run w = .ok (.ok lowered.module) w' := by
  obtain ⟨w₁, hcompile⟩ :=
    compile_run hlower fun init hinit => absurd (hinits ▸ hinit) List.not_mem_nil
  have hgenerated := compileGenerated_run hcompile
  have hrun : (declareWrapper name inner).run w = _ := run_bind_ok rfl
  rw [hnew, if_neg Bool.false_ne_true, hunit] at hrun
  exact ⟨_, hrun.trans ((run_bind_ok (run_ofExcept _)).trans ((run_bind_ok hgenerated).trans rfl))⟩

end Work

end Kiln
