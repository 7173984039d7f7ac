import Kiln.Proofs.Machine.Mirroring
import Kiln.Proofs.Workspace.Outcomes
/-!
# Compiling twice

Two units that come to modules with the same globals, and whose initialisers run alike in the two
libraries that hold them, are compiled alike: both to their modules, both to an error, or neither to
anything; and everything but the library is left the same (`compile_alike`).
-/

namespace Kiln

/-- Two pieces of work end alike: both with values, both with errors, or both with the end of all
work; and in workspaces that differ in their libraries alone, which are the given ones. -/
inductive EndAlike {α β : Type} (lib lib' : Library) (R : α → β → Prop)
    (E : CompileError → CompileError → Prop) :
    EStateM.Result Halt Workspace (Except CompileError α) →
      EStateM.Result Halt Workspace (Except CompileError β) → Prop
  | value {a : α} {b : β} (w : Workspace) : R a b →
      EndAlike lib lib' R E (.ok (.ok a) { w with library := lib })
        (.ok (.ok b) { w with library := lib' })
  | error {e e' : CompileError} (w : Workspace) : E e e' →
      EndAlike lib lib' R E (.ok (.error e) { w with library := lib })
        (.ok (.error e') { w with library := lib' })
  | halt {h : Halt} (w : Workspace) :
      EndAlike lib lib' R E (.error h { w with library := lib })
        (.error h { w with library := lib' })

namespace Work

variable {α β ε : Type} {w w₁ : Workspace}

/-! ## Steps of a row -/

/-- Work as a step of a row. -/
theorem run_lift (x : Work α) : (liftM x : ExceptT ε Work α).run w =
    match x w with
    | .ok a w₁ => .ok (.ok a) w₁
    | .error h w₁ => .error h w₁ := by
  have hbind : (liftM x : ExceptT ε Work α).run w = EStateM.bind x (fun a => pure (.ok a)) w := rfl
  rw [hbind, EStateM.bind]
  rcases x w with ⟨a, w₁⟩ | ⟨h, w₁⟩ <;> rfl

/-- What runs on the machine, by what it comes to there. -/
theorem run_perform (run : Run α) : (perform run).run w =
    match run w.store with
    | .ok a store => .ok (.ok a) { w with store }
    | .error (.fault f) store => .ok (.error f) { w with store }
    | .error (.halt h) store => .error h { w with store } := rfl

/-- An initialiser, by what its evaluation comes to. -/
theorem run_initialise (m : Module) (index : Nat) (init : Initialiser) :
    (initialise m index init).run w =
      match evaluate w.library m.id init.slots init.code w.store with
      | .ok v s => .ok (.ok ()) { w with store := s.setGlobal m.id index v }
      | .error (.fault f) s => .ok (.error f) { w with store := s }
      | .error (.halt h) s => .error h { w with store := s } := by
  have hrun : (initialise m index init).run w =
      (perform (evaluate w.library m.id init.slots init.code) >>= fun v =>
        modifyThe Workspace fun w => { w with store := w.store.setGlobal m.id index v }).run
          w := run_bind_ok rfl
  have hperform := run_perform (w := w) (evaluate w.library m.id init.slots init.code)
  rw [hrun]
  generalize evaluate w.library m.id init.slots init.code w.store = ended at hperform ⊢
  rcases ended with ⟨v, s⟩ | ⟨f | h, s⟩
  · exact run_bind_ok hperform
  · exact run_bind_error hperform
  · exact run_bind_halt hperform

theorem run_initialiseFrom (m : Module) (origin : Origin) (index : Nat) (init : Initialiser)
    (inits : List Initialiser) :
    (initialiseFrom m origin index (init :: inits)).run w =
      match evaluate w.library m.id init.slots init.code w.store with
      | .ok v s =>
        (initialiseFrom m origin (index + 1) inits).run { w with store := s.setGlobal m.id index v }
      | .error (.fault f) s =>
        .ok (.error ⟨m.name, .initialiser (((m.globals[index]?).map Global.name).getD "") f,
          origin, init.span⟩)
          { w with store := s }
      | .error (.halt h) s => .error h { w with store := s } := by
  have hlift := run_lift (ε := CompileError) (w := w) (initialise m index init).run
  rw [show (initialise m index init).run w = _ from run_initialise m index init] at hlift
  generalize evaluate w.library m.id init.slots init.code w.store = ended at hlift ⊢
  rcases ended with ⟨v, s⟩ | ⟨f | h, s⟩
  · exact run_bind_ok hlift
  · exact run_bind_ok hlift
  · exact run_bind_halt hlift

/-- A unit that is lowered, by what its initialisers come to. -/
theorem run_compile {unit : SourceUnit} {deps : List Module} {u : LoweredUnit} {origin : Origin}
    (hlower : unit.lower w.library deps = .ok (u, origin)) :
    (compile unit deps).run w =
      (initialiseFrom u.module origin 0 u.initialisers >>= fun _ => pure u.module).run
      (installed w u.module) := by
  have hrun : (compile unit deps).run w = _ := run_bind_ok rfl
  rw [hlower] at hrun
  exact hrun.trans (run_bind_ok rfl)

/-- A unit that is not lowered changes nothing. -/
theorem run_compile_refused {unit : SourceUnit} {deps : List Module} {e : CompileError}
    (hlower : unit.lower w.library deps = .error e) : (compile unit deps).run w = refusal e w := by
  have hrun : (compile unit deps).run w = _ := run_bind_ok rfl
  rw [hlower] at hrun
  exact hrun.trans (run_giveUp e)

/-! ## Two compilations -/

variable {E : CompileError → CompileError → Prop} {m m' : Module} {origin origin' : Origin}
  {lib lib' : Library}

/-- Rows of steps that end alike one by one end alike. -/
theorem bind_alike {γ δ : Type} {w' : Workspace} {R : α → β → Prop} {S : γ → δ → Prop}
    {x : ExceptT CompileError Work α} {y : ExceptT CompileError Work β}
    {f : α → ExceptT CompileError Work γ} {g : β → ExceptT CompileError Work δ}
    (h : EndAlike lib lib' R E (x.run w) (y.run w'))
      (hf : ∀ a b (w : Workspace), R a b →
        EndAlike lib lib' S E ((f a).run { w with library := lib })
      ((g b).run { w with library := lib' })) :
    EndAlike lib lib' S E ((x >>= f).run w) ((y >>= g).run w') := by
  generalize hx : x.run w = ex at h
  generalize hy : y.run w' = ey at h
  cases h with
  | value w hab =>
    rw [run_bind_ok hx, run_bind_ok hy]
    exact hf _ _ w hab
  | error w he =>
    rw [run_bind_error hx, run_bind_error hy]
    exact .error w he
  | halt w =>
    rw [run_bind_halt hx, run_bind_halt hy]
    exact .halt w

/-- Initialisers that give a global the same first value, with errors that are related where it has
none. -/
def SameFirst (E : CompileError → CompileError → Prop) (lib lib' : Library) (m m' : Module)
    (origin origin' : Origin) (i i' : Initialiser) : Prop :=
  evaluate lib m.id i.slots i.code = evaluate lib' m'.id i'.slots i'.code ∧
    ∀ global f, E ⟨m.name, .initialiser global f, origin, i.span⟩
      ⟨m'.name, .initialiser global f, origin', i'.span⟩

/-- **Initialisers that run alike leave the same globals**, up to the first that fails. -/
theorem initialiseFrom_alike (hid : m'.id = m.id) (hglobals : m'.globals = m.globals)
    {inits inits' : List Initialiser}
      (h : List.Forall₂ (SameFirst E lib lib' m m' origin origin') inits inits') :
      ∀ (index : Nat) (w : Workspace),
      EndAlike lib lib' Eq E ((initialiseFrom m origin index inits).run { w with library := lib })
        ((initialiseFrom m' origin' index inits').run { w with library := lib' }) := by
  induction h with
  | nil => exact fun _ w => .value w rfl
  | @cons i i' _ _ hi _ ih =>
    intro index w
    rw [run_initialiseFrom, run_initialiseFrom]
    dsimp only
    rw [hi.1, hid, hglobals]
    rcases evaluate lib' m.id i'.slots i'.code w.store with ⟨v, s⟩ | ⟨f | h, s⟩
    · exact ih (index + 1) { w with store := s.setGlobal m.id index v }
    · exact .error { w with store := s } (hi.2 _ f)
    · exact .halt { w with store := s }

/-- **Units whose initialisers run alike are compiled alike.** -/
theorem compile_alike {unit unit' : SourceUnit} {deps deps' : List Module} {u u' : LoweredUnit}
    (hlower : unit.lower w.library deps = .ok (u, origin))
    (hlower' : unit'.lower w.library deps' = .ok (u', origin')) (hid : u'.module.id = u.module.id)
    (hglobals : u'.module.globals = u.module.globals)
      (hinits : List.Forall₂
        (SameFirst E (w.library.push u.module) (w.library.push u'.module) u.module u'.module
      origin origin') u.initialisers u'.initialisers) :
    EndAlike (w.library.push u.module) (w.library.push u'.module)
      (fun a b => a = u.module ∧ b = u'.module) E
      ((compile unit deps).run w) ((compile unit' deps').run w) := by
  have halike :=
    initialiseFrom_alike hid hglobals hinits 0 { w with store := w.store.install u.module }
  have hinstalled : installed w u'.module =
      { w with library := w.library.push u'.module, store := w.store.install u.module } := by
    rw [installed, Store.install, Store.install, hglobals]
  rw [run_compile hlower, run_compile hlower', hinstalled]
  exact bind_alike halike fun _ _ w _ => .value w ⟨rfl, rfl⟩

end Work

end Kiln
