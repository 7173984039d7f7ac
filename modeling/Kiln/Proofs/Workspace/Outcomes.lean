import Kiln.Proofs.Lowering.Inversion
import Kiln.Proofs.Workspace.Compiled
/-!
# What may come of compiling

Where compiling a unit does not end all work, it comes to one of these: the unit was refused and
nothing changed, or its module was put in the library and the initialisers of its globals ran one
after the other (`compile_outcome`), each of them to the value that the global was given or to a
fault (`initialiseFrom_outcome`).
-/

namespace Kiln

/-- The store in which a module was given room for its globals, which are not assigned yet. -/
def Store.install (s : Store) (m : Module) : Store :=
  { s with globals := s.globals.push (m.globals.map fun _ => .unit) }

namespace Work

variable {α β ε : Type} {w w' : Workspace}

/-- A row of steps that ended came to its end, or to an error in the first step. -/
theorem run_of_bind {x : ExceptT ε Work α} {f : α → ExceptT ε Work β} {r : Except ε β}
    (h : (x >>= f).run w = .ok r w') :
    (∃ e, x.run w = .ok (.error e) w' ∧ r = .error e) ∨
      ∃ a w₁, x.run w = .ok (.ok a) w₁ ∧ (f a).run w₁ = .ok r w' := by
  have hbind : EStateM.bind x.run (ExceptT.bindCont f) w = .ok r w' := h
  unfold EStateM.bind at hbind
  rcases hx : x.run w with ⟨e | a, w₁⟩ | ⟨e, w₁⟩
  · rw [hx] at hbind
    cases hbind
    exact .inl ⟨e, rfl, rfl⟩
  · rw [hx] at hbind
    exact .inr ⟨a, w₁, rfl, hbind⟩
  · rw [hx] at hbind
    cases hbind

/-- Work that is a step of a row ended with a value. -/
theorem run_of_lift {x : Work α} {r : Except ε α}
    (h : (liftM x : ExceptT ε Work α).run w = .ok r w') :
    ∃ a, r = .ok a ∧ x w = .ok a w' := by
  have hrun : EStateM.bind x (fun a => (pure (.ok a) : Work (Except ε α))) w = .ok r w' := h
  unfold EStateM.bind at hrun
  rcases hx : x w with ⟨a, w₁⟩ | ⟨e, w₁⟩
  · rw [hx] at hrun
    cases hrun
    exact ⟨a, rfl, rfl⟩
  · rw [hx] at hrun
    cases hrun

/-- Work that is the first step of a row came to its end, and the row went on. -/
theorem run_of_lift_bind {x : Work α} {f : α → ExceptT ε Work β} {r : Except ε β}
    (h : ((liftM x : ExceptT ε Work α) >>= f).run w = .ok r w') :
    ∃ a w₁, x w = .ok a w₁ ∧ (f a).run w₁ = .ok r w' := by
  rcases run_of_bind h with ⟨_, hlift, -⟩ | ⟨a, w₁, hlift, h⟩
  · obtain ⟨_, hcases, -⟩ := run_of_lift hlift
    cases hcases
  · obtain ⟨_, hcases, hx⟩ := run_of_lift hlift
    cases hcases
    exact ⟨a, w₁, hx, h⟩

/-- What ran on the machine changed the store. -/
theorem perform_outcome {run : Run α} {r : Except Fault α} (h : (perform run).run w = .ok r w') :
    ∃ s, w' = { w with store := s } ∧
      ((∃ a, r = .ok a ∧ run w.store = .ok a s) ∨
        ∃ f, r = .error f ∧ run w.store = .error (.fault f) s) := by
  dsimp only [perform, ExceptT.mk, ExceptT.run] at h
  split at h
  · rename_i a s heq
    cases h
    exact ⟨s, rfl, .inl ⟨a, rfl, heq⟩⟩
  · rename_i f s heq
    cases h
    exact ⟨s, rfl, .inr ⟨f, rfl, heq⟩⟩
  · cases h

theorem call_outcome {handle : FunctionHandle} {args : List Value} {r : Except Fault Value}
    (h : (call handle args).run w = .ok r w') :
    ∃ s, w' = { w with store := s } ∧
      ((∃ a, r = .ok a ∧ Kiln.call w.library handle args w.store = .ok a s) ∨
        ∃ f, r = .error f ∧ Kiln.call w.library handle args w.store = .error (.fault f) s) := by
  rcases run_of_bind h with ⟨_, hget, -⟩ | ⟨_, _, hget, h⟩
  · cases hget
  · cases hget
    exact perform_outcome h

/-- An initialiser gives its global a value, or ends in a fault. -/
theorem initialise_outcome {m : Module} {index : Nat} {init : Initialiser} {r : Except Fault Unit}
    (h : (initialise m index init).run w = .ok r w') :
    (∃ v s, r = .ok () ∧ evaluate w.library m.id init.slots init.code w.store = .ok v s ∧
        w' = { w with store := s.setGlobal m.id index v }) ∨
      ∃ f s, r = .error f ∧
        evaluate w.library m.id init.slots init.code w.store = .error (.fault f) s ∧
        w' = { w with store := s } := by
  rcases run_of_bind h with ⟨_, hget, -⟩ | ⟨_, _, hget, h⟩
  · cases hget
  cases hget
  rcases run_of_bind h with ⟨f, hperform, hr⟩ | ⟨v, w₁, hperform, h⟩
  · obtain ⟨s, rfl, ⟨_, hcases, -⟩ | ⟨f', hcases, hrun⟩⟩ := perform_outcome hperform
    · cases hcases
    · cases hcases
      exact .inr ⟨f, s, hr, hrun, rfl⟩
  · obtain ⟨s, rfl, ⟨v', hcases, hrun⟩ | ⟨_, hcases, -⟩⟩ := perform_outcome hperform
    · cases hcases
      cases h
      exact .inl ⟨v, s, rfl, hrun, rfl⟩
    · cases hcases

/-- The first of some initialisers runs to a value and the others follow, or all ends with its
fault, which is said to be that of an initialiser. -/
theorem initialiseFrom_outcome {m : Module} {origin : Origin} {index : Nat} {init : Initialiser}
    {inits : List Initialiser} {r : Except CompileError Unit}
    (h : (initialiseFrom m origin index (init :: inits)).run w = .ok r w') :
    (∃ w₁, (initialise m index init).run w = .ok (.ok ()) w₁ ∧
        (initialiseFrom m origin (index + 1) inits).run w₁ = .ok r w') ∨
      ∃ f global, (initialise m index init).run w = .ok (.error f) w' ∧
        r = .error ⟨m.name, .initialiser global f, origin, init.span⟩ := by
  obtain ⟨a, w₁, hinit, h⟩ := run_of_lift_bind h
  rcases a with f | ⟨⟩
  · cases h
    exact .inr ⟨f, _, hinit, rfl⟩
  · exact .inl ⟨w₁, hinit, h⟩

/-- However initialisers end, they change nothing but the store. -/
theorem elsewhere_of_initialiseFrom {m : Module} {origin : Origin} {r : Except CompileError Unit} :
    ∀ {inits : List Initialiser} {index : Nat} {w : Workspace},
      (initialiseFrom m origin index inits).run w = .ok r w' → w' = { w with store := w'.store }
  | [], _, w, h => by
    cases h
    rfl
  | init :: inits, index, w, h => by
    rcases initialiseFrom_outcome h with ⟨w₁, hinit, hrest⟩ | ⟨f, e, hinit, -⟩
    · rw [elsewhere_of_initialiseFrom hrest]
      rcases initialise_outcome hinit with ⟨_, _, -, -, rfl⟩ | ⟨_, _, -, -, rfl⟩ <;> rfl
    · rcases initialise_outcome hinit with ⟨_, _, -, -, rfl⟩ | ⟨_, _, -, -, rfl⟩ <;> rfl

/-- However initialisers end, they add no module. -/
theorem library_of_initialiseFrom {m : Module} {origin : Origin} {r : Except CompileError Unit}
    {inits : List Initialiser} {index : Nat}
    (h : (initialiseFrom m origin index inits).run w = .ok r w') :
    w'.library = w.library := by
  rw [elsewhere_of_initialiseFrom h]

/-- The workspace in which a module was given room. -/
def installed (w : Workspace) (m : Module) : Workspace :=
  { w with
    library := w.library.push m
    store := w.store.install m }

/-- **A unit is refused and nothing changes, or its initialisers run** with its module in place. -/
theorem compile_outcome {unit : SourceUnit} {deps : List Module} {r : Except CompileError Module}
    (h : (compile unit deps).run w = .ok r w') :
    (∃ e, r = .error e ∧ w' = w) ∨
      ∃ lowered origin r', unit.lower w.library deps = .ok (lowered, origin) ∧
        w'.library = w.library.push lowered.module ∧
        (initialiseFrom lowered.module origin 0 lowered.initialisers).run
          (installed w lowered.module) =
          .ok r' w' ∧
            ((∃ e, r' = .error e ∧ r = .error e) ∨ r' = .ok () ∧ r = .ok lowered.module) := by
  rcases run_of_bind h with ⟨_, hget, -⟩ | ⟨_, _, hget, h⟩
  · cases hget
  cases hget
  rcases hlower : unit.lower w.library deps with e | ⟨lowered, origin⟩
  · rw [hlower] at h
    exact .inl ⟨e, refusal_outcome ((run_giveUp e).symm.trans h)⟩
  · rw [hlower] at h
    rcases run_of_bind h with ⟨_, hinstall, -⟩ | ⟨_, w₁, hinstall, h⟩
    · cases hinstall
    cases hinstall
    refine .inr ⟨lowered, origin, ?_⟩
    rcases run_of_bind h with ⟨e, hinit, hr⟩ | ⟨_, w₂, hinit, h⟩
    · exact ⟨.error e, rfl, library_of_initialiseFrom hinit, hinit, .inl ⟨e, rfl, hr⟩⟩
    · cases h
      exact ⟨.ok (), rfl, library_of_initialiseFrom hinit, hinit, .inr ⟨rfl, rfl⟩⟩

/-- Compiling changes nothing but the library and the store. -/
theorem elsewhere_of_compile {unit : SourceUnit} {deps : List Module}
    {r : Except CompileError Module} (h : (compile unit deps).run w = .ok r w') :
    w' = { w with library := w'.library, store := w'.store } := by
  rcases compile_outcome h with ⟨_, -, rfl⟩ | ⟨u, origin, r', -, -, hinit, -⟩
  · rfl
  · rw [elsewhere_of_initialiseFrom hinit]
    rfl

/-- A unit that is lowered was read, and its tree was lowered. -/
theorem lower_outcome {lib : Library} {unit : SourceUnit} {deps : List Module}
    {lowered : LoweredUnit} {origin : Origin} (h : unit.lower lib deps = .ok (lowered, origin)) :
    ∃ f, unit.read = .ok f ∧ lowerUnit lib unit.name deps f.root = .ok lowered := by
  obtain ⟨f, hread, h⟩ := ok_of_bind h
  obtain ⟨u, hlower, h⟩ := ok_of_bind h
  cases h
  exact ⟨f, hread, ok_of_mapError hlower⟩

/-- A unit that was read is lowered as its tree is. -/
theorem lower_of_read {unit : SourceUnit} {f : Fragment} (hread : unit.read = .ok f) (lib : Library)
    (deps : List Module) : unit.lower lib deps =
      ((lowerUnit lib unit.name deps f.root).mapError fun e =>
        (⟨unit.name, .lowering e.fault, f.origin, e.span⟩ : CompileError)).map
          fun u => (u, f.origin) := by
  unfold SourceUnit.lower
  rw [hread]
  show ((lowerUnit lib unit.name deps f.root).mapError _ >>= _) = _
  cases lowerUnit lib unit.name deps f.root <;> rfl

/-- The module of a unit is the next of the library, depends on what it was lowered against and is
called as asked. -/
theorem module_of_lowerUnit {lib : Library} {name : String} {deps : List Module} {root : Tree}
    {u : LoweredUnit} (h : lowerUnit lib name deps root = .ok u) :
    u.module.id = lib.nextId ∧ u.module.deps = deps.map (·.id) ∧ u.module.name = name := by
  obtain ⟨_, -, h⟩ := ok_of_bind h
  obtain ⟨_, -, h⟩ := ok_of_bind h
  obtain ⟨_, -, h⟩ := ok_of_bind h
  obtain ⟨_, -, h⟩ := ok_of_bind h
  obtain ⟨_, -, h⟩ := ok_of_bind h
  obtain ⟨_, -, h⟩ := ok_of_bind h
  cases h
  exact ⟨rfl, rfl, rfl⟩

/-- **The module of a unit that compiles** is the one that the library is longer by. -/
theorem module_of_compile {unit : SourceUnit} {deps : List Module} {m : Module}
    (h : (compile unit deps).run w = .ok (.ok m) w') :
    m.id = w.library.nextId ∧ m.deps = deps.map (·.id) ∧ w'.library = w.library.push m := by
  rcases compile_outcome h with ⟨_, hcases, -⟩ | ⟨u, origin, r', hlower, hlibrary, -, hr⟩
  · cases hcases
  obtain ⟨_, -, hunit⟩ := lower_outcome hlower
  rcases hr with ⟨_, -, hcases⟩ | ⟨-, hcases⟩
  · cases hcases
  · cases hcases
    exact ⟨(module_of_lowerUnit hunit).1, (module_of_lowerUnit hunit).2.1, hlibrary⟩

/-- What compiles is called as its unit is. -/
theorem name_of_compile {unit : SourceUnit} {deps : List Module} {m : Module}
    (h : (compile unit deps).run w = .ok (.ok m) w') : m.name = unit.name := by
  obtain ⟨lowered, origin, hlower, rfl, -⟩ := compile_ok h
  obtain ⟨f, -, hlower⟩ := lower_outcome hlower
  exact (module_of_lowerUnit hlower).2.2

/-- Reading a file changes nothing. -/
theorem readFile_outcome {path : String} {r : Except FileError String}
    (h : (readFile path).run w = .ok r w') : w' = w := by
  rcases run_of_bind h with ⟨_, hget, -⟩ | ⟨_, _, hget, h⟩
  · cases hget
  · cases hget
    rcases hread : w.files.read path with e | text
    · rw [hread] at h
      cases h
      rfl
    · rw [hread] at h
      cases h
      rfl

end Work

end Kiln
