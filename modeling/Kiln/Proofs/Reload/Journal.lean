import Kiln.Proofs.Workspace.Mirroring
import Kiln.Reload.Reloader
/-!
# The journal is only written

Nothing depends on what was told before: work that is done where more had been told ends in the same
way, and tells the same behind it (`Work.Heedless`). That is so of every step of a reload, and so of
a reload (`Reload.reload_heedless`).
-/

namespace Kiln

/-- What was told first, and then the rest. -/
def Journal.append (j k : Journal) : Journal := ⟨j.records ++ k.records, j.notices ++ k.notices⟩

theorem Journal.append_empty (j : Journal) : j.append .empty = j := by
  rw [append, empty, List.append_nil, List.append_nil]

/-- The workspace, had this been told before all else. -/
def Workspace.behind (j : Journal) (w : Workspace) : Workspace :=
  { w with journal := j.append w.journal }

theorem Workspace.behind_empty (w : Workspace) :
    ({ w with journal := .empty } : Workspace).behind w.journal = w := by
  rw [behind, Journal.append_empty]

theorem Workspace.behind_library (j : Journal) (w : Workspace) :
    (w.behind j).library = w.library := rfl

theorem Workspace.behind_store (j : Journal) (w : Workspace) : (w.behind j).store = w.store := rfl

/-- The end of some work, had this been told before all else. -/
def endBehind {α : Type} (j : Journal) : EStateM.Result Halt Workspace α →
    EStateM.Result Halt Workspace α
  | .ok a w => .ok a (w.behind j)
  | .error h w => .error h (w.behind j)

namespace Work

/-- The work does not depend on what was told before it. -/
def Heedless {α : Type} (x : Work α) : Prop := ∀ j w, x (w.behind j) = endBehind j (x w)

namespace Heedless

variable {α β ε : Type}

theorem pure (a : α) : Heedless (pure a) := fun _ _ => rfl

/-- **Steps that are heedless follow each other so.** -/
theorem bind {x : Work α} {k : α → Work β} (hx : Heedless x) (hk : ∀ a, Heedless (k a)) :
    Heedless (x >>= k) := by
  intro j w
  show EStateM.bind x k _ = endBehind j (EStateM.bind x k w)
  rw [EStateM.bind, EStateM.bind, hx]
  rcases x w with ⟨a, w'⟩ | ⟨h, w'⟩
  · exact hk a j w'
  · rfl

theorem modify {f : Workspace → Workspace} (hf : ∀ j w, f (w.behind j) = (f w).behind j) :
    Heedless (modify f) := fun j w => congrArg (EStateM.Result.ok ()) (hf j w)

theorem record (level : Level) (message : String) : Heedless (record level message) :=
  modify fun j w =>
    congrArg (fun records => { w with journal := ⟨records, j.notices ++ w.journal.notices⟩ })
      (List.append_assoc j.records w.journal.records _)

theorem notice (n : Notice) : Heedless (notice n) :=
  modify fun j w =>
    congrArg (fun notices => { w with journal := ⟨j.records ++ w.journal.records, notices⟩ })
      (List.append_assoc j.notices w.journal.notices _)

theorem adopt (m : Module) : Heedless (adopt m) := modify fun _ _ => rfl

/-- Steps with errors of their own follow each other so too. -/
theorem run_bind {x : ExceptT ε Work α} {k : α → ExceptT ε Work β} (hx : Heedless x.run)
    (hk : ∀ a, Heedless (k a).run) : Heedless (x >>= k).run := by
  refine bind (k := ExceptT.bindCont k) hx fun a => ?_
  rcases a with e | a
  · exact pure _
  · exact hk a

theorem perform (run : Run α) : Heedless (perform run).run := by
  intro j w
  rw [run_perform, run_perform, Workspace.behind_store]
  rcases run w.store with ⟨a, s⟩ | ⟨f | h, s⟩ <;> rfl

theorem call (handle : FunctionHandle) (args : List Value) : Heedless (call handle args).run := by
  intro j w
  have hrun :
      ∀ w, (Work.call handle args).run w = (Work.perform (Kiln.call w.library handle args)).run w :=
    fun w => run_bind_ok rfl
  exact (hrun _).trans ((perform (Kiln.call w.library handle args) j w).trans
    (congrArg (endBehind j) (hrun w).symm))

theorem readFile (path : String) : Heedless (readFile path).run := by
  intro j w
  show (MonadExcept.ofExcept (w.files.read path) : ExceptT FileError Work String).run _ =
    endBehind j ((MonadExcept.ofExcept (w.files.read path) : ExceptT FileError Work String).run w)
  rcases w.files.read path with e | text <;> rfl

theorem initialiseFrom (m : Module) (origin : Origin) : ∀ (inits : List Initialiser) (index : Nat),
    Heedless (initialiseFrom m origin index inits).run
  | [], _ => pure _
  | init :: inits, index => by
    intro j w
    rw [run_initialiseFrom, run_initialiseFrom, Workspace.behind_library, Workspace.behind_store]
    rcases evaluate w.library m.id init.slots init.code w.store with ⟨v, s⟩ | ⟨f | h, s⟩
    · exact initialiseFrom m origin inits (index + 1) j { w with store := s.setGlobal m.id index v }
    · rfl
    · rfl

theorem compile (unit : SourceUnit) (deps : List Module) : Heedless (compile unit deps).run := by
  intro j w
  rcases hlower : unit.lower w.library deps with e | ⟨u, origin⟩
  · have hlower' : unit.lower (w.behind j).library deps = .error e := hlower
    rw [run_compile_refused hlower, run_compile_refused hlower', refusal, refusal]
    cases e.fault.halt? <;> rfl
  · have hlower' : unit.lower (w.behind j).library deps = .ok (u, origin) := hlower
    rw [run_compile hlower, run_compile hlower']
    exact run_bind (initialiseFrom _ _ _ _) (fun _ => pure _) j (installed w u.module)

theorem reportCompile (path : String) (e : CompileError) : Heedless (reportCompile path e) :=
  (record _ _).bind fun _ => notice _

theorem load (path : String) (deps : List Module) : Heedless (load path deps) := by
  refine (readFile path).bind fun text => ?_
  rcases text with e | text
  · exact (record _ _).bind fun _ => pure _
  · refine (compile _ deps).bind fun result => ?_
    rcases result with e | m
    · exact (reportCompile path e).bind fun _ => pure _
    · exact (record _ _).bind fun _ => (adopt m).bind fun _ => pure _

theorem unload (m : Module) : Heedless (unload m) := by
  intro j w
  exact (record .info _).bind (fun _ => pure ((w.graph.removeWithDependents m.id).1.map (·.id))) j
    { w with
      graph := (w.graph.removeWithDependents m.id).2
      registry := w.registry.forget ((w.graph.removeWithDependents m.id).1.map (·.id)) }

theorem bindEntry (e : EntryPoint) (m : Module) : Heedless (e.bind m) := by
  unfold EntryPoint.bind
  split
  · exact (record _ _).bind fun _ => pure _
  · split
    · exact pure _
    · exact (record _ _).bind fun _ => pure _

theorem callEntry (e : EntryPoint) : Heedless e.call.run := by
  unfold EntryPoint.call
  split
  · exact pure _
  · exact run_bind (call _ []) fun _ => pure _

end Heedless

end Work

/-! ## Steps of the loop -/

namespace Reload

open Work (Heedless)

variable {α β : Type}

/-- Steps of the loop follow each other in heedless work. -/
theorem heedless_bind {x : Reload α} {k : α → Reload β} {r : Reloader} (hx : Heedless (x r))
    (hk : ∀ a r, Heedless (k a r)) : Heedless ((x >>= k) r) := by
  show Heedless (x r >>= fun p => k p.1 p.2)
  exact hx.bind fun p => hk p.1 p.2

/-- A step that looks at the loop. -/
theorem heedless_look {k : Reloader → Reload β} {r : Reloader} (hk : Heedless (k r r)) :
    Heedless ((get >>= k) r) := hk

/-- A step that changes the loop. -/
theorem heedless_set {k : PUnit → Reload β} {r r' : Reloader} (hk : Heedless (k ⟨⟩ r')) :
    Heedless ((set r' >>= k) r) := hk

theorem heedless_lift {x : Work α} (hx : Heedless x) (r : Reloader) :
    Heedless ((liftM x : Reload α) r) :=
  hx.bind fun a => .pure (a, r)

theorem heedless_discard {x : Reload α} {r : Reloader} (hx : Heedless (x r)) :
    Heedless ((discard x : Reload Unit) r) := by
  show Heedless (x r >>= fun p => (Pure.pure ((), p.2) : Work (Unit × Reloader)))
  exact hx.bind fun _ => .pure _

theorem install_heedless (m : Module) (r : Reloader) : Heedless (install m r) := by
  refine heedless_look ?_
  refine heedless_bind (heedless_lift (.bindEntry r.update m) r) fun _ r' => ?_
  exact heedless_bind (heedless_lift (.bindEntry r.terminate m) r') fun _ _ => .pure _

theorem unbind_heedless (r : Reloader) : Heedless (unbind r) := .pure _

theorem retire_heedless (r : Reloader) : Heedless (retire r) := by
  refine heedless_look ?_
  rcases r.current with _ | old
  · exact .pure _
  · have hrest : ∀ r : Reloader, Heedless ((do
        unbind
        discard (Work.unload old)
        modify fun r => { r with current := none, state := .unloaded } : Reload Unit) r) := fun r =>
      heedless_bind (unbind_heedless r) fun _ r =>
        heedless_bind (heedless_discard (heedless_lift (.unload old) r)) fun _ _ => .pure _
    refine heedless_bind (heedless_lift (.callEntry r.terminate) r) fun result r => ?_
    rcases result with f | ⟨⟩
    · exact heedless_bind (heedless_lift (.record _ _) r) fun _ r => hrest r
    · exact hrest r

/-- **A reload does not depend on what was told before it.** -/
theorem reload_heedless (r : Reloader) : Heedless (reload r) := by
  refine heedless_look
    (heedless_set (heedless_bind (heedless_lift (.load r.path r.deps) _) fun fresh r' => ?_))
  rcases fresh with _ | fresh
  · exact heedless_bind (heedless_lift (.record _ _) r') fun _ _ => .pure _
  · refine heedless_bind (retire_heedless r')
      fun _ r' => heedless_bind (install_heedless fresh r') fun _ r' => ?_
    exact heedless_bind (.pure _)
      fun _ r' => heedless_bind (heedless_lift (.record _ _) r') fun _ _ => .pure _

end Reload

end Kiln
