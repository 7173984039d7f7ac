import Kiln.Proofs.Reload.Journal
import Kiln.Proofs.Reload.Runs
/-!
# Reloads that fail

A reload fails when the file cannot be read, or its text is no unit that compiles. It leaves the
loop as it was, settled: its version, what its entry points are bound to and the reloads that were
counted. Of the workspace it leaves the graph and the registry, and every module of the library;
what initialisers did until one of them failed stays done, and the number that was given to their
module stays given. So whatever comes later goes on from there as if no reload had been tried
(`Reload.reload_failing`).
-/

namespace Kiln

/-- Loading the file at the path fails, as it cannot be read or its text does not compile; the
workspace is then the second one, journal apart. -/
inductive Work.LoadFails (path : String) (deps : List Module) (w : Workspace) : Workspace → Prop
  | unread {e : FileError} : w.files.read path = .error e → LoadFails path deps w w
  | uncompiled {text : String} {e : CompileError} {w₁ : Workspace} : w.files.read path = .ok text →
      (compile (.text (Path.moduleName path) path text) deps).run w = .ok (.error e) w₁ →
      LoadFails path deps w w₁

/-- The loop as it stands between two events: it has a version or it has none. -/
def Reloader.settled (r : Reloader) : Reloader :=
  { r with state := if r.current.isSome then .loaded else .unloaded }

namespace Work

variable {w w₁ w' : Workspace} {path : String} {deps : List Module}

theorem run_readFile (path : String) (w : Workspace) :
    (readFile path).run w = .ok (w.files.read path) w := by
  show (MonadExcept.ofExcept (w.files.read path) : ExceptT FileError Work String).run w = _
  rcases w.files.read path with e | text <;> rfl

/-- A file that cannot be read is not loaded. -/
theorem load_of_unread {e : FileError} (h : w.files.read path = .error e) :
    load path deps w =
      .ok none { w with
        journal := w.journal.record .error ("failed to read " ++ path ++ ": " ++ e.message) } := by
  show EStateM.bind (readFile path).run _ w = _
  rw [EStateM.bind, run_readFile, h]
  rfl

/-- A file that is read is compiled. -/
theorem load_of_read {text : String} (h : w.files.read path = .ok text) :
    load path deps w = EStateM.bind (compile (.text (Path.moduleName path) path text) deps).run (fun
      | .error e => do
        reportCompile path e
        return none
      | .ok m => do
        record .info ("loaded module `" ++ m.name ++ "` (" ++ m.id.render ++ ") from " ++ path)
        adopt m
        return some m) w := by
  show EStateM.bind (readFile path).run _ w = _
  rw [EStateM.bind, run_readFile, h]
  rfl

/-- **What fails to load is not loaded**, and more is told of it. -/
theorem LoadFails.load (h : LoadFails path deps w w₁) :
    ∃ journal, load path deps w = .ok none { w₁ with journal } := by
  cases h with
  | unread hread => exact ⟨_, load_of_unread hread⟩
  | uncompiled hread hcompile =>
    rw [load_of_read hread, EStateM.bind, hcompile]
    exact ⟨_, rfl⟩

/-- What is not loaded failed to load. -/
theorem fails_of_load (h : load path deps w = .ok none w') :
    ∃ w₁, LoadFails path deps w w₁ ∧ w' = { w₁ with journal := w'.journal } := by
  rcases hread : w.files.read path with e | text
  · rw [load_of_unread hread] at h
    cases h
    exact ⟨w, .unread hread, rfl⟩
  · rw [load_of_read hread] at h
    unfold EStateM.bind at h
    rcases hcompile :
      (compile (.text (Path.moduleName path) path text) deps).run w with ⟨e | m, w₁⟩ | ⟨e, w₁⟩
    · rw [hcompile] at h
      cases h
      exact ⟨w₁, .uncompiled hread hcompile, rfl⟩
    · rw [hcompile] at h
      cases h
    · rw [hcompile] at h
      cases h

/-- What a file that fails to load leaves behind: nothing, or the module of its unit, of which no
initialiser did anything from the first on that failed. -/
theorem LoadFails.effects (h : LoadFails path deps w w₁) :
    w₁ = { w with library := w₁.library, store := w₁.store } ∧ w.library.Grows w₁.library ∧
      (w₁ = w ∨ ∃ text u origin e, w.files.read path = .ok text ∧
        (SourceUnit.text (Path.moduleName path) path text).lower w.library deps = .ok (u, origin) ∧
          w₁.library = w.library.push u.module ∧
            (initialiseFrom u.module origin 0 u.initialisers).run (installed w u.module) =
            .ok (.error e) w₁) := by
  cases h with
  | unread _ => exact ⟨rfl, .refl _, .inl rfl⟩
  | uncompiled hread hcompile =>
    refine ⟨elsewhere_of_compile hcompile, ?_⟩
    rcases compile_outcome hcompile with ⟨_, -, rfl⟩ | ⟨u, origin, r', hlower, hlibrary, hinit, hr⟩
    · exact ⟨.refl _, .inl rfl⟩
    · rcases hr with ⟨e, rfl, -⟩ | ⟨-, hcases⟩
      · rw [hlibrary]
        exact ⟨Library.grows_push _ _, .inr ⟨_, u, origin, e, hread, hlower, rfl, hinit⟩⟩
      · cases hcases

end Work

namespace Reload

open Work (LoadFails)

variable {r r' : Reloader} {w w₁ w' : Workspace}

/-- A step of the loop hands its value on. -/
theorem step_ok {α β : Type} {x : Reload α} {k : α → Reload β} {a : α}
    (h : x r w = .ok (a, r') w') :
    (x >>= k) r w = k a r' w' := by
  show EStateM.bind (x r) (fun p => k p.1 p.2) w = _
  rw [EStateM.bind, h]

theorem lift_ok {α : Type} {x : Work α} {a : α} (h : x w = .ok a w') :
    (liftM x : Reload α) r w = .ok (a, r) w' := by
  show EStateM.bind x (fun a => pure (a, r)) w = _
  rw [EStateM.bind, h]
  rfl

/-- A reload of a file that is not loaded settles the loop and does nothing more. -/
theorem reload_of_load (h : Work.load r.path r.deps w = .ok none w') :
    reload r w =
      .ok (false, r.settled) { w' with
        journal := w'.journal.record .warning ("keeping the previous version of " ++ r.path) } := by
  have hget : (get : Reload Reloader) r w = .ok (r, r) w := rfl
  have hset : (set { r with state := .compiling } : Reload PUnit) r w =
    .ok (⟨⟩, { r with state := .compiling }) w := rfl
  exact (step_ok hget).trans ((step_ok hset).trans ((step_ok (lift_ok h)).trans rfl))

/-- A reload that says that nothing was done found that the file fails to load. -/
theorem fails_of_reload (h : reload r w = .ok (false, r') w') :
    r' = r.settled ∧
      ∃ w₁, LoadFails r.path r.deps w w₁ ∧ w' = { w₁ with journal := w'.journal } := by
  obtain ⟨_, _, _, hget, hrest⟩ := ok_of_step h
  cases hget
  obtain ⟨_, _, _, hset, hrest⟩ := ok_of_step hrest
  cases hset
  obtain ⟨fresh, _, w₂, hstep, hrest⟩ := ok_of_step hrest
  obtain ⟨rfl, hload⟩ := ok_of_work hstep
  rcases fresh with _ | m
  · obtain ⟨w₁, hfails, hw₂⟩ := Work.fails_of_load hload
    rw [reload_of_load hload] at h
    cases h
    exact ⟨rfl, w₁, hfails, by rw [hw₂]⟩
  · -- a version that is installed is told of
    obtain ⟨_, _, _, -, hrest⟩ := ok_of_step hrest
    obtain ⟨_, _, _, -, hrest⟩ := ok_of_step hrest
    obtain ⟨_, _, _, -, hrest⟩ := ok_of_step hrest
    obtain ⟨_, _, _, -, hrest⟩ := ok_of_step hrest
    cases hrest

/-! ## Frames -/

/-- A call of the function that `update` is bound to, if it is bound; a version whose `update` fails
is not called again. -/
def updateBy (handle? : Option FunctionHandle) (r : Reloader) (w : Workspace) :
    EStateM.Result Halt Workspace (Unit × Reloader) :=
  match handle? with
  | none => .ok ((), r) w
  | some handle =>
    match Kiln.call w.library handle [] w.store with
    | .ok _ store => .ok ((), r) { w with store }
    | .error (.fault f) store =>
      .ok ((), { r with update := r.update.unbind })
        { w with
          store
          journal := w.journal.record .error
            ("`update` failed: " ++ f.message ++ "; disabled until the next reload") }
    | .error (.halt h) store => .error h { w with store }

/-- The rest of a frame, once changes were picked up. -/
def finishFrame : Reload Unit := do
  match ← callEntry (← get).update with
  | .ok () => pure ()
  | .error f =>
    Work.record .error ("`update` failed: " ++ f.message ++ "; disabled until the next reload")
    modify fun r => { r with update := r.update.unbind }

/-- A call through an entry point, by what the function comes to. -/
theorem callEntry_of_bound {e : EntryPoint} {handle : FunctionHandle} (h : e.handle = some handle) :
    callEntry e r w = match Kiln.call w.library handle [] w.store with
      | .ok _ store => .ok (.ok (), r) { w with store }
      | .error (.fault f) store => .ok (.error f, r) { w with store }
      | .error (.halt h) store => .error h { w with store } := by
  obtain ⟨name, _⟩ := e
  subst h
  have hcall : (Work.call handle []).run w = (Work.perform (Kiln.call w.library handle [])).run w :=
    Work.run_bind_ok rfl
  rw [Work.run_perform] at hcall
  generalize Kiln.call w.library handle [] w.store = ended at hcall ⊢
  have hentry : callEntry ⟨name, some handle⟩ r w =
      EStateM.bind (Work.call handle [] >>= fun _ => pure ()).run (fun a => pure (a, r)) w := rfl
  rcases ended with ⟨v, s⟩ | ⟨f | e, s⟩
  · rw [hentry, EStateM.bind, Work.run_bind_ok hcall]
    rfl
  · rw [hentry, EStateM.bind, Work.run_bind_error hcall]
    rfl
  · rw [hentry, EStateM.bind, Work.run_bind_halt hcall]

/-- The rest of a frame calls what `update` is bound to. -/
theorem finishFrame_eq : finishFrame r w = updateBy r.update.handle r w := by
  have hframe : finishFrame r w = EStateM.bind (callEntry r.update r) (fun p => (match p.1 with
    | .ok () => pure ()
    | .error f => do
      Work.record .error ("`update` failed: " ++ f.message ++ "; disabled until the next reload")
      modify fun r => { r with update := r.update.unbind } : Reload Unit) p.2) w := rfl
  rw [hframe, EStateM.bind]
  rcases hhandle : r.update.handle with _ | handle
  · have hnone : callEntry r.update r w = .ok (.ok (), r) w := by
      rw [callEntry, EntryPoint.call, hhandle]
      rfl
    rw [hnone]
    rfl
  · rw [callEntry_of_bound hhandle, updateBy]
    rcases Kiln.call w.library handle [] w.store with ⟨v, s⟩ | ⟨f | e, s⟩ <;> rfl

/-- **A frame without a change calls what `update` is bound to.** -/
theorem runFrame_of_unchanged (h : r.pending = []) :
    runFrame r w = updateBy r.update.handle r w := by
  have hpoll : pollChanges r w = .ok (false, r) w := by
    obtain ⟨deps, path, pending, current, state, update, terminate, reloads⟩ := r
    subst h
    rfl
  have hframe : runFrame r w = (pollChanges >>= fun changed => (do
      if changed then discard reload
      finishFrame : Reload Unit)) r w := rfl
  rw [hframe, step_ok hpoll]
  exact finishFrame_eq

/-- **A frame in which a reload fails goes on as one without a change** from what the reload
leaves. -/
theorem runFrame_of_failed (hpending : r.pending ≠ [])
    (h : Work.load r.path r.deps w = .ok none w') :
    runFrame r w = runFrame { r.settled with pending := [] } { w' with
      journal := w'.journal.record .warning ("keeping the previous version of " ++ r.path) } := by
  rw [runFrame_of_unchanged (r := { r.settled with pending := [] }) rfl]
  have hpoll : pollChanges r w =
      .ok (true, { r with pending := [], state := if r.current.isSome then .stale else r.state })
      w := by
    obtain ⟨deps, path, pending, current, state, update, terminate, reloads⟩ := r
    rcases pending with _ | ⟨first, rest⟩
    · exact absurd rfl hpending
    · rfl
  have hframe : runFrame r w = (pollChanges >>= fun changed => (do
      if changed then discard reload
      finishFrame : Reload Unit)) r w := rfl
  have hreload : (discard reload : Reload Unit)
      { r with pending := [], state := if r.current.isSome then .stale else r.state } w =
        .ok ((), { r.settled with pending := [] }) { w' with
          journal := w'.journal.record .warning ("keeping the previous version of " ++ r.path) } :=
    step_ok (k := fun _ => pure ()) (reload_of_load h)
  rw [hframe, step_ok hpoll]
  exact (step_ok hreload).trans finishFrame_eq

/-! ## Rows of reloads that fail -/

/-- Some reloads, one after the other, each of which does nothing. The files may change before each
of them, and notifications may come and be looked at. -/
inductive FailedReloads (r : Reloader) (w : Workspace) : Reloader → Workspace → Prop
  | none : FailedReloads r w r w
  | next {r₁ r₂ : Reloader} {w₁ w₂ : Workspace} (files : Files) (pending : List String)
      (state : SlotState) :
      FailedReloads r w r₁ w₁ →
      reload { r₁ with pending, state } { w₁ with files } = .ok (false, r₂) w₂ →
      FailedReloads r w r₂ w₂

/-- **Reloads that fail leave the loop as it was**, notifications and settling apart, and the
workspace but for its library and store, and what was told. -/
theorem FailedReloads.keep (h : FailedReloads r w r' w') :
    r' = { r with pending := r'.pending, state := r'.state } ∧
    w' = { w with
      library := w'.library, store := w'.store, files := w'.files, journal := w'.journal } ∧
    w.library.Grows w'.library := by
  induction h with
  | none => exact ⟨rfl, rfl, .refl _⟩
  | next files pending state _ hreload ih =>
    obtain ⟨hr, hw, hgrows⟩ := ih
    obtain ⟨rfl, w₃, hfails, hw₂⟩ := fails_of_reload hreload
    obtain ⟨hw₃, hgrows', -⟩ := hfails.effects
    refine ⟨?_, ?_, ?_⟩
    · rw [hr]
      rfl
    · rw [hw₂, hw₃, hw]
    · rw [hw₂]
      exact hgrows.trans hgrows'

/-- **A later reload goes on as if none had been tried before**: from what those left of the library
and the store it ends in the same way, and what it tells is the same, wherever they ended. -/
theorem FailedReloads.later (h : FailedReloads r w r' w') (files : Files) :
    ∃ ended, reload r' { w' with files } = endBehind w'.journal ended ∧
      reload { r with pending := r'.pending }
        { w with library := w'.library, store := w'.store, files } =
        endBehind w.journal ended := by
  obtain ⟨hr, hw, -⟩ := h.keep
  refine ⟨reload { r with pending := r'.pending }
    { w with library := w'.library, store := w'.store, files, journal := .empty }, ?_, ?_⟩
  · have hsame : reload r' = reload { r with pending := r'.pending } := by
      rw [hr]
      rfl
    have hcleared : ({ w' with files, journal := .empty } : Workspace) =
        { w with library := w'.library, store := w'.store, files, journal := .empty } := by
      rw [hw]
    rw [hsame, ← hcleared, ← reload_heedless]
    exact congrArg _ (Workspace.behind_empty { w' with files }).symm
  · rw [← reload_heedless]
    exact congrArg _
      (Workspace.behind_empty { w with library := w'.library, store := w'.store, files }).symm

/-- **A reload that fails changes nothing that matters.** If the file cannot be read, or its text
does not compile, the reload says that nothing was done and settles the loop: the version, what both
entry points are bound to and the number of reloads stay, and so do the graph, the registry and
every module of the library. What it leaves are a number that was given out and what initialisers
did until one failed, if that was the cause. The frame that it happens in, and the next, call what
`update` was bound to. And after any number of such reloads the next one does what it would do had
none been tried in the library and the store that they left, and tells the same. -/
theorem reload_failing (r : Reloader) (w : Workspace) :
    (∀ w₁, LoadFails r.path r.deps w w₁ → ∃ w',
      reload r w = .ok (false, r.settled) w' ∧
        w' = { w with library := w₁.library, store := w₁.store, journal := w'.journal } ∧
        w.library.Grows w'.library ∧
        (w₁ = w ∨ ∃ text u origin e, w.files.read r.path = .ok text ∧
          (SourceUnit.text (Path.moduleName r.path) r.path text).lower w.library r.deps =
            .ok (u, origin) ∧
            w₁.library = w.library.push u.module ∧
              (Work.initialiseFrom u.module origin 0 u.initialisers).run
                (Work.installed w u.module) =
                .ok (.error e) w₁) ∧
        (r.pending ≠ [] → runFrame r w = runFrame { r.settled with pending := [] } w') ∧
        runFrame { r.settled with pending := [] } w' =
          updateBy r.update.handle { r.settled with pending := [] } w') ∧
      ∀ r' w', FailedReloads r w r' w' →
        r' = { r with pending := r'.pending, state := r'.state } ∧
          w' = { w with
            library := w'.library, store := w'.store, files := w'.files, journal := w'.journal } ∧
          w.library.Grows w'.library ∧
          ∀ files, ∃ ended, reload r' { w' with files } = endBehind w'.journal ended ∧
            reload { r with pending := r'.pending }
              { w with library := w'.library, store := w'.store, files } =
              endBehind w.journal ended := by
  refine ⟨fun w₁ hfails => ?_, fun r' w' h => ⟨h.keep.1, h.keep.2.1, h.keep.2.2, h.later⟩⟩
  obtain ⟨journal, hload⟩ := hfails.load
  obtain ⟨hw₁, hgrows, heffects⟩ := hfails.effects
  refine ⟨_, reload_of_load hload, ?_, hgrows, heffects,
    fun hpending => runFrame_of_failed hpending hload,
    runFrame_of_unchanged (r := { r.settled with pending := [] }) rfl⟩
  rw [hw₁]

/-- The file is gone when the module is reloaded, and is there again for the next reload. -/
theorem reload_failing_missing : ∃ r w w', Reloader.start [] "hot" hotWorkspace = .ok r w ∧
    r.current.isSome = true ∧ r.update.handle.isSome = true ∧
      reload r { w with files := .empty "/kiln" } = .ok (false, r) w' ∧ w'.library = w.library ∧
        w'.graph = w.graph ∧
          ∃ ended, reload r { w' with files := hotWorkspace.files } = endBehind w'.journal ended ∧
            reload r
              { w with library := w'.library, store := w'.store, files := hotWorkspace.files } =
              endBehind w.journal ended := by
  obtain ⟨r, w, _, _, hstart, hrun, hcheck⟩ := exists_performAll [] "hot" hotWorkspace []
    (fun r => r.path == "hot" && r.state == .loaded && r.current.isSome && r.update.handle.isSome)
    (by decide +kernel)
  cases hrun
  simp only [Bool.and_eq_true, beq_iff_eq] at hcheck
  obtain ⟨⟨⟨hpath, hstate⟩, hcurrent⟩, hbound⟩ := hcheck
  have hsettled : r.settled = r := by
    rw [Reloader.settled, if_pos hcurrent, ← hstate]
  have hfails : LoadFails r.path r.deps { w with files := .empty "/kiln" }
    { w with files := .empty "/kiln" } := by
    have hread : (Files.empty "/kiln").read "hot" = .error .notFound := by decide +kernel
    exact .unread (hpath ▸ hread)
  obtain ⟨w', hreload, hw', -⟩ := (reload_failing r { w with files := .empty "/kiln" }).1 _ hfails
  rw [hsettled] at hreload
  have hrow : FailedReloads r w r w' := .next (.empty "/kiln") r.pending r.state .none hreload
  exact ⟨r, w, w', hstart, hcurrent, hbound, hreload, by rw [hw'], by rw [hw'],
    ((reload_failing r w).2 r w' hrow).2.2.2 hotWorkspace.files⟩

end Reload

end Kiln
