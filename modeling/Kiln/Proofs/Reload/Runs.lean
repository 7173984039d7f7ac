import Kiln.Proofs.Reload.Operations
/-!
# Runs of the loop

What holds after the first attempt and any row of events. The parts of the loop agree with each
other and with the graph (`performAll_coherent`), and whatever was done to versions of the module on
the way was done in order (`live_orderly`), also by a run that all work ends in.
-/

namespace Kiln

/-- The parts of the loop agree: the state says whether there is a version, and what is bound are
functions of that version. -/
structure Reloader.Coherent (r : Reloader) : Prop where
  settled : r.state ≠ .compiling
  unloaded : r.state = .unloaded ↔ r.current = none
  loaded : r.state = .loaded ∨ r.state = .stale ↔ r.current.isSome = true
  update : ∀ handle, r.update.handle = some handle →
    ∃ m, r.current = some m ∧ m.entryPoint? "update" = some handle
  terminate : ∀ handle, r.terminate.handle = some handle →
    ∃ m, r.current = some m ∧ m.entryPoint? "terminate" = some handle

namespace Reload

open Told

variable {o : Outset} {c : Telling}

theorem Standing.coherent (h : Standing o c) : c.reloader.Coherent := by
  have hterminate : ∀ handle, c.reloader.terminate.handle = some handle →
      ∃ m, c.reloader.current = some m ∧ m.entryPoint? "terminate" = some handle := by
    intro handle hbound
    rw [h.kept.terminate rfl] at hbound
    exact Option.bind_eq_some_iff.1 hbound
  have hupdate : ∀ handle, c.reloader.update.handle = some handle →
      ∃ m, c.reloader.current = some m ∧ m.entryPoint? "update" = some handle := by
    intro handle hbound
    obtain ⟨m, hcurrent, hentry, -⟩ := h.kept.update handle hbound
    exact ⟨m, hcurrent, hentry⟩
  rcases h.slot with ⟨hstate, hcurrent⟩ | ⟨hstate, hcurrent⟩
  · refine ⟨?_, ?_, ?_, hupdate, hterminate⟩
    · simp [hstate]
    · simp [hstate, hcurrent]
    · simp [hstate, hcurrent]
  · have hsome : c.reloader.current ≠ none := Option.isSome_iff_ne_none.1 hcurrent
    refine ⟨?_, ?_, ?_, hupdate, hterminate⟩
    · rcases hstate with hstate | hstate <;> simp [hstate]
    · rcases hstate with hstate | hstate <;> simp [hstate, hsome]
    · simp [hstate, hcurrent]

/-! ## After a run -/

/-- A run of the loop is told by one that ends alike. -/
theorem exists_log {α : Type} {y : Told α} {x : Reload α} (hof : Of y x) {a : α} {r : Reloader}
    {w : Workspace} (hx : x c.reloader c.workspace = .ok (a, r) w) :
    ∃ log, y c = .ok a ⟨w, r, log⟩ := by
  have hforget := hof c
  rw [hx] at hforget
  rcases hy : y c with ⟨a', c'⟩ | ⟨e, c'⟩
  · rw [hy] at hforget
    cases hforget
    exact ⟨c'.log, rfl⟩
  · rw [hy] at hforget
    cases hforget

/-- What is met by a run holds where it ends. -/
theorem of_meets {α : Type} {x : Told α} {Q : α → Telling → Prop} (h : Meets x c Q) {a : α}
    {c' : Telling} (hx : x c = .ok a c') : Q a c' := by
  unfold Meets at h
  rwa [hx] at h

variable {w₀ w₁ w : Workspace} {deps : List Module} {path : String} {r₀ r : Reloader}
  {es : List Happening}

/-- **After the first attempt and any row of events the parts of the loop agree.** The graph holds
what it held before and the current version, unless it held modules of another library, and the
swaps that are counted are those that were made. -/
theorem performAll_coherent (hstart : Reloader.start deps path w₀ = .ok r₀ w₁)
    (hrun : performAll es r₀ w₁ = .ok ((), r) w) : r.Coherent ∧
      (Outset.Closed ⟨w₀, deps⟩ → w.graph.modules = w₀.graph.modules ++ r.current.toList) ∧
      ∃ log, Told.live es ⟨w₀, .initial deps path, []⟩ = .ok () ⟨w, r, log⟩ ∧
        log.countP (·.isSwap) = r.reloads := by
  have hfirst : start (.initial deps path) w₀ = .ok ((), r₀) w₁ := by
    obtain ⟨⟨⟨⟩, r'⟩, w', hx, hpair⟩ := ok_of_run_bind hstart
    cases hpair
    exact hx
  have hlive : live es (.initial deps path) w₀ = .ok ((), r) w := by
    show EStateM.bind (start (.initial deps path)) (fun p => performAll es p.2) w₀ = _
    rw [EStateM.bind, hfirst]
    exact hrun
  -- the run says nothing of what was done, and its parts are those of the run that tells it
  obtain ⟨log, htold⟩ := exists_log (c := ⟨w₀, .initial deps path, []⟩) (of_live es) hlive
  have hstands : Standing ⟨w₀, deps⟩ ⟨w, r, log⟩ := of_meets (Standing.live path es) htold
  refine ⟨hstands.coherent, fun hclosed => ?_, log, htold, hstands.count⟩
  have hgraph := hstands.kept.graph hclosed
  rwa [Option.toList_none, List.append_nil] at hgraph

/-- A run can be found by running it. -/
theorem exists_performAll (deps : List Module) (path : String) (w₀ : Workspace)
    (es : List Happening) (check : Reloader → Bool) (h : (match Reloader.start deps path w₀ with
      | .ok r₀ w₁ => match performAll es r₀ w₁ with
        | .ok (_, r) _ => check r
        | .error _ _ => false
      | .error _ _ => false) = true) :
    ∃ r₀ w₁ r w, Reloader.start deps path w₀ = .ok r₀ w₁ ∧ performAll es r₀ w₁ = .ok ((), r) w ∧
      check r = true := by
  rcases hstart : Reloader.start deps path w₀ with ⟨r₀, w₁⟩ | ⟨e, w₁⟩
  · rw [hstart] at h
    dsimp only at h
    rcases hrun : performAll es r₀ w₁ with ⟨⟨⟨⟩, r⟩, w⟩ | ⟨e, w⟩
    · rw [hrun] at h
      exact ⟨r₀, w₁, r, w, rfl, hrun, h⟩
    · rw [hrun] at h
      cases h
  · rw [hstart] at h
    cases h

/-- A directory with one file. -/
def oneFile (name text : String) : Files := { Files.empty "/kiln" with texts := [([name], text)] }

/-- A workspace with a file that has both entry points. -/
def hotWorkspace : Workspace :=
  .initial 64 (oneFile "hot" "(fun update () unit) (fun terminate () unit)")

/-- Two changes are picked up in one frame, and later one that cannot be read. -/
def hotEvents : List Happening :=
  [.notify "hot", .notify "hot", .frame, .edit (oneFile "hot" "(fun"), .notify "hot", .frames 2]

/-- The first version is replaced, and the second one is kept. -/
theorem performAll_coherent_kept : ∃ r₀ w₁ r w, Reloader.start [] "hot" hotWorkspace = .ok r₀ w₁ ∧
    performAll hotEvents r₀ w₁ = .ok ((), r) w ∧ r.Coherent ∧ w.graph.modules = r.current.toList ∧
      r.reloads = 1 ∧ r.current.isSome = true := by
  obtain ⟨r₀, w₁, r, w, hstart, hrun, hcheck⟩ := exists_performAll [] "hot" hotWorkspace hotEvents
    (fun r => r.reloads == 1 && r.current.isSome) (by decide +kernel)
  rw [Bool.and_eq_true, beq_iff_eq] at hcheck
  have hclosed : Outset.Closed ⟨hotWorkspace, []⟩ :=
    Outset.closed_of_prepared (.initial _ _) fun d hd => by cases hd
  obtain ⟨hcoherent, hgraph, -⟩ := performAll_coherent hstart hrun
  exact ⟨r₀, w₁, r, w, hstart, hrun, hcoherent, hgraph hclosed, hcheck.1, hcheck.2⟩

/-! ## During a run -/

/-- Deeds that are in order wherever the steps end are in order also where all work ends. -/
theorem orderly_of_meets {α : Type} {x : Told α} (h : Meets x c fun _ c' => Orderly c'.log) :
    Orderly (Told.deeds (x c)) := by
  unfold Meets at h
  rcases hx : x c with ⟨a, c'⟩ | ⟨e, c'⟩
  · rwa [hx] at h
  · rwa [hx] at h

/-- **Whatever the loop does is in order**, over the first attempt and any row of events, and so is
what it has done when all work ends on the way. In particular a version is told to end once if it is
removed and never more often, and none of its functions is called from then on. -/
theorem live_orderly (w : Workspace) (deps : List Module) (path : String) (es : List Happening) :
    Told.forget (Told.live es ⟨w, .initial deps path, []⟩) = live es (.initial deps path) w ∧
      ∀ log, log = Told.deeds (Told.live es ⟨w, .initial deps path, []⟩) → Orderly log ∧
        (∀ v t, v.entryPoint? "terminate" = some t → log.countP (·.isCall "terminate" t) ≤ 1 ∧
          (.removed v ∈ log → log.countP (·.isCall "terminate" t) = 1)) ∧
        ∀ later past t, log = later ++ .calls "terminate" t :: past →
          ∀ entry handle, .calls entry handle ∈ later → handle.home ≠ t.home := by
  refine ⟨of_live es _, ?_⟩
  have hstands :
      Meets (Told.live es) ⟨w, .initial deps path, []⟩ fun _ c' => Standing ⟨w, deps⟩ c' :=
    Standing.live (o := ⟨w, deps⟩) path es
  have horderly : Orderly (Told.deeds (Told.live es ⟨w, .initial deps path, []⟩)) :=
    orderly_of_meets (Meets.imp hstands fun _ _ h => h.kept.orderly)
  rintro _ rfl
  refine ⟨horderly, fun v t ht => ⟨horderly.terminate_le t, horderly.terminate_once ht⟩, ?_⟩
  intro later past t hlog entry handle hcalls
  rw [hlog] at horderly
  exact horderly.silent_after_terminate hcalls

-- one attempt at first, one in the frame with two notifications, one in the frame with another
example :
    (Told.deeds (Told.live hotEvents ⟨hotWorkspace, .initial [] "hot", []⟩)).countP (·.isAttempt) =
    3 := by
  decide +kernel

end Reload

end Kiln
