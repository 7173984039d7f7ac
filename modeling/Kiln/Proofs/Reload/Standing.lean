import Kiln.Proofs.Reload.Chronicle
import Kiln.Proofs.Reload.Loading
/-!
# How the loop stands

`Standing` says how the loop, the workspace and the deeds told so far go together between two
events: which version is current, what the entry points are bound to, which modules the graph holds.
Every operation of the loop keeps it (`Standing.perform`) and only does what is allowed, also when
all work ends for good in the middle of it; that is what `Told.Meets` speaks of. Within an operation
the weaker `Kept` holds, of a loop that may have a version to install and may have told the current
one to end.
-/

namespace Kiln

namespace Reload

/-! ## Invariants -/

/-- Where a row of events sets out from: the workspace, and what every version is compiled
against. -/
structure Outset where
  workspace : Workspace
  deps : List Module

/-- The library knows the modules that were loaded and those that versions are compiled against. A
module of another library could have the number that the next version gets. -/
structure Outset.Closed (o : Outset) : Prop where
  graph : ∀ m ∈ o.workspace.graph.modules, o.workspace.library.Knows m
  deps : ∀ d ∈ o.deps, o.workspace.library.Knows d

/-- Every prepared workspace is such a place to set out from. -/
theorem Outset.closed_of_prepared {w : Workspace} {deps : List Module} (hw : w.Prepared)
    (hdeps : ∀ d ∈ deps, w.library.find? d.id = some d) : Outset.Closed ⟨w, deps⟩ :=
  ⟨hw.knows.2, fun d hd => hw.knows.1 d (Array.mem_of_getElem? (hdeps d hd))⟩

/-- A version that was compiled and is not installed yet is newer than all that were. -/
structure Newest (o : Outset) (w : Workspace) (log : List Deed) (m : Module) : Prop where
  attempt : .attempt (some m) ∈ log
  deps : m.deps = o.deps.map (·.id)
  new : o.workspace.library.modules.size ≤ m.id.index
  given : m.id.index < w.library.modules.size
  newer : ∀ v, .installed v ∈ log → v.id.index < m.id.index

/-- How the parts go together within an operation. A version may have been compiled that is not
installed yet (`fresh`), and the current one may have been told to end (`ended`). -/
structure Kept (o : Outset) (fresh : Option Module) (ended : Bool) (c : Telling) : Prop where
  orderly : Orderly c.log
  deps : c.reloader.deps = o.deps
  names : c.reloader.update.name = "update" ∧ c.reloader.terminate.name = "terminate"
  update : ∀ h, c.reloader.update.handle = some h → ∃ v, c.reloader.current = some v ∧
    v.entryPoint? "update" = some h ∧ .fails "update" h ∉ c.log
  terminate : ended = false →
    c.reloader.terminate.handle = c.reloader.current.bind (·.entryPoint? "terminate")
  unended : ended = false → ∀ v, c.reloader.current = some v → Unended c.log v
  ended : ended = true → ∀ v, c.reloader.current = some v →
    ∀ t, v.entryPoint? "terminate" = some t → .calls "terminate" t ∈ c.log
  live : ∀ v, Live c.log v ↔ c.reloader.current = some v
  settled : ∀ v, .attempt (some v) ∈ c.log → .installed v ∈ c.log ∨ fresh = some v
  grows : o.workspace.library.modules.size ≤ c.workspace.library.modules.size
  /-- Versions have numbers that were not given out before. -/
  known : ∀ v, .installed v ∈ c.log → o.workspace.library.modules.size ≤ v.id.index ∧
    v.id.index < c.workspace.library.modules.size
  newest : ∀ m, fresh = some m → Newest o c.workspace c.log m
  graph : o.Closed → c.workspace.graph.modules =
    o.workspace.graph.modules ++ c.reloader.current.toList ++ fresh.toList

/-- **How the loop stands between two events.** -/
structure Standing (o : Outset) (c : Telling) : Prop where
  kept : Kept o none false c
  slot : c.reloader.state = .unloaded ∧ c.reloader.current = none ∨
    (c.reloader.state = .loaded ∨ c.reloader.state = .stale) ∧ c.reloader.current.isSome = true
  count : c.log.countP (·.isSwap) = c.reloader.reloads

end Reload

/-! ## Runs of steps that tell what they do -/

namespace Told

open Reload

variable {α β : Type}

/-- From there the steps end so, or they end all work with their deeds in order. -/
def Meets (x : Told α) (c : Telling) (Q : α → Telling → Prop) : Prop :=
  match x c with
  | .ok a c' => Q a c'
  | .error _ c' => Orderly c'.log

namespace Meets

variable {c : Telling} {Q : α → Telling → Prop} {R : β → Telling → Prop}

theorem pure {a : α} (h : Q a c) : Meets (pure a) c Q := h

/-- **What is met by steps one after the other.** -/
theorem bind {x : Told α} {k : α → Told β} (hx : Meets x c Q)
    (hk : ∀ a c', Q a c' → Meets (k a) c' R) :
    Meets (x >>= k) c R := by
  have hstep : Meets x c Q := hx
  show (match EStateM.bind x k c with
    | .ok b c' => R b c'
    | .error _ c' => Orderly c'.log)
  unfold Meets at hstep
  unfold EStateM.bind
  rcases hxc : x c with ⟨a, c'⟩ | ⟨e, c'⟩
  · rw [hxc] at hstep
    exact hk a c' hstep
  · rw [hxc] at hstep
    exact hstep

theorem imp {x : Told α} {Q' : α → Telling → Prop} (hx : Meets x c Q)
    (h : ∀ a c', Q a c' → Q' a c') :
    Meets x c Q' := by
  unfold Meets at hx ⊢
  rcases hxc : x c with ⟨a, c'⟩ | ⟨e, c'⟩
  · rw [hxc] at hx
    exact h a c' hx
  · rw [hxc] at hx
    exact hx

/-- What a step ends with is thrown away. -/
theorem discard {x : Told α} (hx : Meets x c Q) : Meets (discard x) c fun _ c' => ∃ a, Q a c' :=
  bind (k := fun _ => Pure.pure ()) hx fun a _ h => ⟨a, h⟩

/-- A step that tells a deed. -/
theorem tell {d : Deed} {k : Unit → Told β} (h : Meets (k ()) { c with log := d :: c.log } R) :
    Meets (Told.tell d >>= k) c R := h

/-- A step that tells nothing is met by what it can end with. -/
theorem quiet {x : Reload α} (horderly : Orderly c.log)
    (h : ∀ a r w, x c.reloader c.workspace = .ok (a, r) w → Q a ⟨w, r, c.log⟩) :
    Meets (quiet x) c Q := by
  unfold Meets Told.quiet
  rcases hx : x c.reloader c.workspace with ⟨⟨a, r⟩, w⟩ | ⟨e, w⟩
  · exact h a r w hx
  · exact horderly

/-- A step that looks at the loop. -/
theorem look {k : Reloader → Told β} (h : Meets (k c.reloader) c R) :
    Meets (Told.quiet get >>= k) c R := h

/-- A step that changes the loop. -/
theorem modify {f : Reloader → Reloader} {k : Unit → Told β}
    (h : Meets (k ()) { c with reloader := f c.reloader } R) :
    Meets (Told.quiet (modify f) >>= k) c R := h

theorem set {r : Reloader} {k : Unit → Told β} (h : Meets (k ()) { c with reloader := r } R) :
    Meets (Told.quiet (set r) >>= k) c R := h

/-- A step that writes a record. -/
theorem record {level : Level} {message : String} {k : Unit → Told β}
    (h : ∀ w, c.workspace.Alike w → Meets (k ()) ⟨w, c.reloader, c.log⟩ R) :
    Meets (Told.quiet (Work.record level message) >>= k) c R := h _ ⟨rfl, rfl⟩

/-- A call through an entry point: what is asked of one that is bound, and what comes of it. -/
theorem callEntry {e : EntryPoint} {Q : Except Fault Unit → Telling → Prop}
    (horderly : Orderly c.log) (hallowed : ∀ h, e.handle = some h → Allowed c.log (.calls e.name h))
    (hnone : ∀ w result, e.handle = none → c.workspace.Alike w → Q result ⟨w, c.reloader, c.log⟩)
    (hok : ∀ h w, e.handle = some h → c.workspace.Alike w →
      Q (.ok ()) ⟨w, c.reloader, .calls e.name h :: c.log⟩)
    (hfails : ∀ h f w, e.handle = some h → c.workspace.Alike w →
      Q (.error f) ⟨w, c.reloader, .fails e.name h :: .calls e.name h :: c.log⟩) :
    Meets (callEntry e) c Q := by
  unfold Told.callEntry
  rcases hhandle : e.handle with _ | handle
  · refine .quiet horderly fun result r w hrun => ?_
    obtain ⟨rfl, halike⟩ := callEntry_outcome hrun
    exact hnone w result hhandle halike
  · have hcalls : Orderly (.calls e.name handle :: c.log) := ⟨hallowed handle hhandle, horderly⟩
    refine .tell ?_
    refine (Meets.quiet (Q := fun result c' => ∃ w, c.workspace.Alike w ∧
      c' = ⟨w, c.reloader, .calls e.name handle :: c.log⟩) hcalls fun result r w hrun => ?_).bind ?_
    · obtain ⟨rfl, halike⟩ := callEntry_outcome hrun
      exact ⟨w, halike, rfl⟩
    · rintro result _ ⟨w, halike, rfl⟩
      rcases result with f | ⟨⟩
      · exact hfails handle f w hhandle halike
      · exact hok handle w hhandle halike

end Meets

end Told

namespace Reload

open Told

variable {o : Outset} {fresh : Option Module} {ended : Bool} {c : Telling} {w : Workspace}

/-! ## Steps that change no version -/

/-- Work that leaves the graph alone changes nothing, if the library only grows. -/
theorem Kept.grown (h : Kept o fresh ended c) (hgraph : w.graph = c.workspace.graph)
    (hlibrary : c.workspace.library.modules.size ≤ w.library.modules.size) :
    Kept o fresh ended ⟨w, c.reloader, c.log⟩ :=
  { h with
    grows := Nat.le_trans h.grows hlibrary
    known := fun v hv => ⟨(h.known v hv).1, Nat.lt_of_lt_of_le (h.known v hv).2 hlibrary⟩
    newest :=
      fun m hm => { h.newest m hm with given := Nat.lt_of_lt_of_le (h.newest m hm).given hlibrary }
    graph := fun hclosed => hgraph ▸ h.graph hclosed }

theorem Kept.alike (h : Kept o fresh ended c) (halike : c.workspace.Alike w) :
    Kept o fresh ended ⟨w, c.reloader, c.log⟩ :=
  h.grown halike.graph (Nat.le_of_eq (by rw [halike.library]))

/-- **Silent deeds change nothing**, if it is still known whether the current version was told to
end and no `update` failed that is still bound. -/
theorem Kept.silent (h : Kept o fresh false c) (ended : Bool) (ds : List Deed)
    (hds : ∀ d ∈ ds, d.isSilent = true) (horderly : Orderly (ds ++ c.log))
    (hupdate : ∀ handle, c.reloader.update.handle = some handle → .fails "update" handle ∉ ds)
    (hunended : ended = false → ∀ t, .calls "terminate" t ∉ ds)
    (hended : ended = true → ∀ v, c.reloader.current = some v →
      ∀ t, v.entryPoint? "terminate" = some t → .calls "terminate" t ∈ ds ++ c.log) :
    Kept o fresh ended ⟨c.workspace, c.reloader, ds ++ c.log⟩ where
  orderly := horderly
  deps := h.deps
  names := h.names
  update handle hhandle := by
    obtain ⟨v, hcurrent, hentry, hfails⟩ := h.update handle hhandle
    refine ⟨v, hcurrent, hentry, fun hmem => ?_⟩
    rcases List.mem_append.1 hmem with hmem | hmem
    · exact hupdate handle hhandle hmem
    · exact hfails hmem
  terminate _ := h.terminate rfl
  unended hno v hcurrent t ht hmem := by
    rcases List.mem_append.1 hmem with hmem | hmem
    · exact hunended hno t hmem
    · exact h.unended rfl v hcurrent t ht hmem
  ended := hended
  live v := by
    rw [Live, mem_of_silent hds rfl, mem_of_silent hds rfl]
    exact h.live v
  settled v hattempt := by
    rw [mem_of_silent hds rfl] at hattempt ⊢
    exact h.settled v hattempt
  grows := h.grows
  known v hv := h.known v ((mem_of_silent hds rfl).1 hv)
  newest m hm :=
    { h.newest m hm with
      attempt := List.mem_append_right ds (h.newest m hm).attempt
      newer := fun v hv => (h.newest m hm).newer v ((mem_of_silent hds rfl).1 hv) }
  graph := h.graph

/-- One such deed, which does not end the current version. -/
theorem Kept.tell (h : Kept o fresh false c) {d : Deed} (hallowed : Allowed c.log d)
    (hsilent : d.isSilent = true) (hcalls : ∀ t, d ≠ .calls "terminate" t)
    (hfails : ∀ handle, c.reloader.update.handle = some handle → d ≠ .fails "update" handle) :
    Kept o fresh false { c with log := d :: c.log } := by
  have hds : ∀ e ∈ [d], e.isSilent = true := fun e he => by
    rw [List.mem_singleton.1 he]
    exact hsilent
  refine h.silent false [d] hds ⟨hallowed, h.orderly⟩ (fun handle hbound hmem => ?_)
    (fun _ t hmem => ?_) (by simp)
  · exact hfails handle hbound (List.mem_singleton.1 hmem).symm
  · exact hcalls t (List.mem_singleton.1 hmem).symm

/-- Only the entry points, the current version and what versions are compiled against matter. -/
theorem Kept.loop (h : Kept o fresh ended c) {r : Reloader} (hdeps : r.deps = c.reloader.deps)
    (hupdate : r.update = c.reloader.update) (hterminate : r.terminate = c.reloader.terminate)
    (hcurrent : r.current = c.reloader.current) : Kept o fresh ended ⟨c.workspace, r, c.log⟩ := by
  obtain ⟨deps, path, pending, current, state, update, terminate, reloads⟩ := r
  cases hdeps
  cases hupdate
  cases hterminate
  cases hcurrent
  exact ⟨h.orderly, h.deps, h.names, h.update, h.terminate, h.unended, h.ended, h.live,
    h.settled, h.grows, h.known, h.newest, h.graph⟩

/-! ## Ending a version -/

/-- The current version is told to end. -/
theorem Kept.callTerminate (h : Kept o fresh false c) (hhead : MayEnd c.log) :
    Meets (Told.callEntry c.reloader.terminate) c fun _ c' =>
      Kept o fresh true c' ∧ c'.reloader = c.reloader ∧ Added c.log 0 0 c'.log := by
  have hname : c.reloader.terminate.name = "terminate" := h.names.2
  have hbound : ∀ t, c.reloader.terminate.handle = some t → ∃ v, c.reloader.current = some v ∧
      v.entryPoint? "terminate" = some t := by
    intro t ht
    rw [h.terminate rfl] at ht
    exact Option.bind_eq_some_iff.1 ht
  have hallowed :
      ∀ t, c.reloader.terminate.handle = some t → Allowed c.log (.calls "terminate" t) := by
    intro t ht
    obtain ⟨v, hcurrent, hentry⟩ := hbound t ht
    exact ⟨v, (h.live v).2 hcurrent, hentry, h.unended rfl v hcurrent, .inr ⟨rfl, hhead⟩⟩
  -- whatever is told of the call, the version has been told to end
  have hended :
      ∀ t, c.reloader.terminate.handle = some t → ∀ ds : List Deed, .calls "terminate" t ∈ ds →
      ∀ v, c.reloader.current = some v → ∀ t', v.entryPoint? "terminate" = some t' →
        .calls "terminate" t' ∈ ds ++ c.log := by
    intro t ht ds hmem v hcurrent t' ht'
    have hsame : some t' = some t := by
      rw [← ht', ← ht, h.terminate rfl, hcurrent]
      rfl
    cases hsame
    exact List.mem_append_left _ hmem
  refine .callEntry h.orderly (hname ▸ hallowed) (fun w result hnone halike => ?_)
    (fun t w ht halike => ?_) fun t f w ht halike => ?_
  · have hkept := h.silent true [] (fun _ hd => absurd hd List.not_mem_nil) h.orderly (by simp)
      (fun hno => by cases hno) fun _ v hcurrent t ht => by
        rw [h.terminate rfl, hcurrent] at hnone
        exact absurd (ht.symm.trans hnone) (Option.some_ne_none t)
    exact ⟨hkept.alike halike, rfl, .none⟩
  · have hsilent : ∀ d ∈ [Deed.calls "terminate" t], d.isSilent = true := fun d hd => by
      rw [List.mem_singleton.1 hd]
      rfl
    have hkept := h.silent true [.calls "terminate" t] hsilent ⟨hallowed t ht, h.orderly⟩ (by simp)
      (fun hno => by cases hno) fun _ => hended t ht _ List.mem_cons_self
    rw [hname]
    exact ⟨hkept.alike halike, rfl, Added.none.calls t⟩
  · have hsilent : ∀ d ∈ [Deed.fails "terminate" t, .calls "terminate" t], d.isSilent = true := by
      intro d hd
      rcases List.mem_cons.1 hd with rfl | hd
      · rfl
      · rw [List.mem_singleton.1 hd]
        rfl
    have hkept := h.silent true [.fails "terminate" t, .calls "terminate" t] hsilent
      ⟨rfl, hallowed t ht, h.orderly⟩ (by simp) (fun hno => by cases hno)
      fun _ => hended t ht _ (List.mem_cons_of_mem _ List.mem_cons_self)
    rw [hname]
    exact ⟨hkept.alike halike, rfl, (Added.none.calls t).fails _ t⟩

/-- Both entry points are left unbound. -/
theorem Kept.unbind (h : Kept o fresh true c) : Meets (quiet Reload.unbind) c fun _ c' =>
    Kept o fresh true c' ∧ c' = { c with reloader := { c.reloader with
      update := c.reloader.update.unbind, terminate := c.reloader.terminate.unbind } } := by
  refine .quiet h.orderly fun _ r w hrun => ?_
  cases hrun
  refine ⟨{ h with update := fun handle hbound => ?_, terminate := fun hno => ?_ }, rfl⟩
  · cases hbound
  · cases hno

/-- No module that stays was compiled against the current version. -/
theorem Kept.independent (h : Kept o fresh true c) {v : Module}
    (hcurrent : c.reloader.current = some v) (hclosed : o.Closed) {m : Module}
    (hm : m ∈ o.workspace.graph.modules ++ fresh.toList) :
    m.id ≠ v.id ∧ v.id ∉ m.deps := by
  have hv : .installed v ∈ c.log := ((h.live v).2 hcurrent).1
  have hnew : o.workspace.library.modules.size ≤ v.id.index := (h.known v hv).1
  rcases List.mem_append.1 hm with hm | hm
  -- modules that were there before have to do with smaller numbers only
  · obtain ⟨hlt, hdeps⟩ := hclosed.graph m hm
    refine ⟨fun heq => ?_, fun hmem => ?_⟩
    · rw [heq] at hlt
      omega
    · have hdep := hdeps v.id hmem
      omega
  -- and the next version is newer, and compiled against what was there before
  · have hfresh := h.newest m (Option.mem_toList.1 hm)
    refine ⟨fun heq => ?_, fun hmem => ?_⟩
    · have hlt := hfresh.newer v hv
      rw [heq] at hlt
      omega
    · rw [hfresh.deps] at hmem
      obtain ⟨d, hd, heq⟩ := List.mem_map.1 hmem
      have hlt := (hclosed.deps d hd).1
      rw [heq] at hlt
      omega

/-- **Only the current version leaves the graph** when it is taken out. -/
theorem Kept.graph_removed (h : Kept o fresh true c) {v : Module}
    (hcurrent : c.reloader.current = some v) (hclosed : o.Closed) :
      (c.workspace.graph.removeWithDependents v.id).2.modules =
      o.workspace.graph.modules ++ fresh.toList := by
  have hgraph := h.graph hclosed
  rw [hcurrent, Option.toList_some] at hgraph
  have hothers : ∀ m ∈ c.workspace.graph.modules, m.id ≠ v.id → v.id ∉ m.deps := by
    intro m hm hne
    rw [hgraph, List.append_assoc] at hm
    rcases List.mem_append.1 hm with hm | hm
    · exact (h.independent hcurrent hclosed (List.mem_append_left _ hm)).2
    · rcases List.mem_cons.1 hm with rfl | hm
      · exact absurd rfl hne
      · exact (h.independent hcurrent hclosed (List.mem_append_right _ hm)).2
  have hstays : (o.workspace.graph.modules ++ fresh.toList).filter (·.id ≠ v.id) =
      o.workspace.graph.modules ++ fresh.toList :=
    List.filter_eq_self.2 fun m hm => decide_eq_true (h.independent hcurrent hclosed hm).1
  rw [List.filter_append] at hstays
  rw [ModuleGraph.removeWithDependents_modules hothers, hgraph, List.filter_append,
    List.filter_append, ← hstays]
  simp

/-- Where there is no version, none was told to end. -/
theorem Kept.vacant (h : Kept o fresh true c) (hcurrent : c.reloader.current = none)
    (hunbound : c.reloader.update.handle = none ∧ c.reloader.terminate.handle = none)
    (state : SlotState) :
    Kept o fresh false ⟨c.workspace, { c.reloader with current := none, state }, c.log⟩ :=
  { h with
    update := fun _ hbound => absurd hbound (by simp [hunbound.1])
    terminate := fun _ => hunbound.2
    unended := fun _ _ hnone => by cases hnone
    ended := fun hno => by cases hno
    live := hcurrent ▸ h.live
    graph := hcurrent ▸ h.graph }

/-- How the parts go together once the current version was taken out. -/
theorem Kept.vacated (h : Kept o fresh true c) {v : Module} (hcurrent : c.reloader.current = some v)
    (hunbound : c.reloader.update.handle = none ∧ c.reloader.terminate.handle = none)
    (hlibrary : w.library = c.workspace.library)
    (hgraph : w.graph = (c.workspace.graph.removeWithDependents v.id).2) (state : SlotState) :
    Kept o fresh false ⟨w, { c.reloader with current := none, state }, .removed v :: c.log⟩ := by
  have hallowed : Allowed c.log (.removed v) := ⟨(h.live v).2 hcurrent, h.ended rfl v hcurrent⟩
  have hmem : ∀ {d : Deed}, d ≠ .removed v → d ∈ Deed.removed v :: c.log → d ∈ c.log :=
    fun hne => (mem_cons_of_ne hne).1
  -- what is live behind the removal was live before, and only the version that was removed was
  have hdead : ∀ u, ¬Live (Deed.removed v :: c.log) u := by
    intro u hu
    have hbefore : Live c.log u :=
      ⟨hmem (by simp) hu.1, fun hmem => hu.2 (List.mem_cons_of_mem _ hmem)⟩
    have hsame : some u = some v := ((h.live u).1 hbefore).symm.trans hcurrent
    cases hsame
    exact hu.2 List.mem_cons_self
  have hsize : w.library.modules.size = c.workspace.library.modules.size := by rw [hlibrary]
  exact
    { orderly := ⟨hallowed, h.orderly⟩
      deps := h.deps
      names := h.names
      update := fun _ hbound => absurd hbound (by simp [hunbound.1])
      terminate := fun _ => hunbound.2
      unended := fun _ _ hnone => by cases hnone
      ended := fun hno => by cases hno
      live := fun u => ⟨fun hu => absurd hu (hdead u), fun hnone => by cases hnone⟩
      settled := fun u hu => (h.settled u (hmem (by simp) hu)).imp_left (List.mem_cons_of_mem _)
      grows := hsize ▸ h.grows
      known := fun u hu => hsize ▸ h.known u (hmem (by simp) hu)
      newest := fun m hm =>
        { h.newest m hm with
          attempt := List.mem_cons_of_mem _ (h.newest m hm).attempt
          given := hsize ▸ (h.newest m hm).given
          newer := fun u hu => (h.newest m hm).newer u (hmem (by simp) hu) }
      graph := fun hclosed => by
        show w.graph.modules = _
        rw [hgraph, h.graph_removed hcurrent hclosed]
        simp }

/-- The current version is taken out of the graph, and there is none. -/
theorem Kept.vacate (h : Kept o fresh true c) {v : Module} (hcurrent : c.reloader.current = some v)
    (hunbound : c.reloader.update.handle = none ∧ c.reloader.terminate.handle = none) :
    Meets (Told.remove v) c fun _ c' => c'.reloader = c.reloader ∧ Added c.log 0 0 c'.log ∧
      ∀ state,
        Kept o fresh false ⟨c'.workspace, { c.reloader with current := none, state }, c'.log⟩ := by
  refine (Meets.quiet (Q := fun _ c' => ∃ w, c' = ⟨w, c.reloader, c.log⟩ ∧
    w.library = c.workspace.library ∧ w.graph = (c.workspace.graph.removeWithDependents v.id).2)
    h.orderly
    fun _ r w hrun => ?_).bind ?_
  · cases hrun
    exact ⟨_, rfl, rfl, rfl⟩
  · rintro ⟨⟩ _ ⟨w, rfl, hlibrary, hgraph⟩
    exact ⟨rfl, Added.none.removed v, h.vacated hcurrent hunbound hlibrary hgraph⟩

/-- **The version that there is is told to end and removed**, if there is one. -/
theorem Kept.retire (h : Kept o fresh false c) (hhead : MayEnd c.log) :
    Meets Told.retire c fun _ c' =>
    Kept o fresh false c' ∧ c'.reloader.current = none ∧ Added c.log 0 0 c'.log := by
  refine .look ?_
  rcases hcurrent : c.reloader.current with _ | v
  · exact .pure ⟨h, hcurrent, .none⟩
  have hrest : ∀ c₁, Kept o fresh true c₁ ∧ c₁.reloader = c.reloader ∧ Added c.log 0 0 c₁.log →
      Meets (do
        Told.quiet Reload.unbind
        Told.remove v
        Told.quiet (modify fun r => { r with current := none, state := .unloaded })) c₁ fun _ c' =>
        Kept o fresh false c' ∧ c'.reloader.current = none ∧ Added c.log 0 0 c'.log := by
    rintro c₁ ⟨h₁, hloop, hadded⟩
    refine h₁.unbind.bind ?_
    rintro ⟨⟩ _ ⟨h₂, rfl⟩
    refine (h₂.vacate (hloop ▸ hcurrent) ⟨rfl, rfl⟩).bind ?_
    rintro ⟨⟩ c₃ ⟨hloop', hadded', h₃⟩
    refine ⟨?_, rfl, hadded.trans hadded'⟩
    rw [hloop']
    exact h₃ .unloaded
  -- the version goes whether its end failed or not
  refine (h.callTerminate hhead).bind fun result c₁ h₁ => ?_
  rcases result with f | ⟨⟩
  · exact .record fun w halike => hrest _ ⟨h₁.1.alike halike, h₁.2⟩
  · exact hrest c₁ h₁

/-! ## Compiling and installing a version -/

theorem Kept.isSettled (h : Kept o none ended c) : Settled c.log := fun v hv =>
  (h.settled v hv).resolve_right fun hnone => by cases hnone

/-- The file was compiled in vain. -/
theorem Kept.missed (h : Kept o none false c) (hgraph : w.graph = c.workspace.graph)
    (hlibrary : c.workspace.library.modules.size ≤ w.library.modules.size) :
    Kept o none false ⟨w, c.reloader, .attempt none :: c.log⟩ :=
  (h.tell (d := .attempt none) h.isSettled rfl (by simp) (by simp)).grown hgraph hlibrary

/-- **A version that is compiled comes last in the graph**, since its number is the largest. -/
theorem Kept.graph_inserted (h : Kept o none ended c) (hclosed : o.Closed) {m : Module}
    (hid : m.id = c.workspace.library.nextId) : (c.workspace.graph.insert m).modules =
      o.workspace.graph.modules ++ c.reloader.current.toList ++ [m] := by
  have hindex : m.id.index = c.workspace.library.modules.size := congrArg ModuleId.index hid
  have hgrows := h.grows
  have hbefore := h.graph hclosed
  rw [Option.toList_none, List.append_nil] at hbefore
  have holder : ∀ n ∈ c.workspace.graph.modules, n.id.index < m.id.index := by
    intro n hn
    rw [hbefore] at hn
    rcases List.mem_append.1 hn with hn | hn
    · have hlt := (hclosed.graph n hn).1
      omega
    · have hknown := h.known n ((h.live n).2 (Option.mem_toList.1 hn)).1
      omega
  rw [ModuleGraph.insert_modules holder, hbefore]

/-- The file was compiled to a version, which is the newest and not installed yet. -/
theorem Kept.compiled (h : Kept o none false c) {m : Module}
    (hid : m.id = c.workspace.library.nextId) (hdeps : m.deps = o.deps.map (·.id))
    (hlibrary : w.library = c.workspace.library.push m)
    (hgraph : w.graph = c.workspace.graph.insert m) :
    Kept o (some m) false ⟨w, c.reloader, .attempt (some m) :: c.log⟩ := by
  have hgrows := h.grows
  have hindex : m.id.index = c.workspace.library.modules.size := congrArg ModuleId.index hid
  have hsize : w.library.modules.size = c.workspace.library.modules.size + 1 := by
    rw [hlibrary, Library.push, Array.size_push]
  have hmem :
      ∀ {d : Deed}, d ≠ .attempt (some m) → d ∈ Deed.attempt (some m) :: c.log → d ∈ c.log :=
    fun hne => (mem_cons_of_ne hne).1
  exact
    { orderly := ⟨h.isSettled, h.orderly⟩
      deps := h.deps
      names := h.names
      update := fun handle hbound => by
        obtain ⟨v, hv, hentry, hfails⟩ := h.update handle hbound
        exact ⟨v, hv, hentry, fun hfailed => hfails (hmem (by simp) hfailed)⟩
      terminate := h.terminate
      unended := fun _ v hv t ht hended => h.unended rfl v hv t ht (hmem (by simp) hended)
      ended := fun hno => by cases hno
      live := fun v => by
        rw [Live, mem_cons_of_ne (by simp), mem_cons_of_ne (by simp)]
        exact h.live v
      settled := fun v hv => by
        rcases List.mem_cons.1 hv with heq | hv
        · cases heq
          exact .inr rfl
        · exact .inl (List.mem_cons_of_mem _ (h.isSettled v hv))
      grows := by
        show _ ≤ w.library.modules.size
        omega
      known := fun v hv => by
        have hknown := h.known v (hmem (by simp) hv)
        show _ ∧ _ < w.library.modules.size
        omega
      newest := fun n hn => by
        cases hn
        refine ⟨List.mem_cons_self, hdeps, by omega, ?_, fun v hv => ?_⟩
        · show _ < w.library.modules.size
          omega
        · have hknown := h.known v (hmem (by simp) hv)
          omega
      graph := fun hclosed => by
        show w.graph.modules = _
        rw [hgraph]
        exact h.graph_inserted hclosed hid }

/-- **The file is compiled**: in vain, or to the newest version, which is not installed yet. -/
theorem Kept.attempt (h : Kept o none false c) (path : String) :
    Meets (Told.attempt path c.reloader.deps) c fun found c' =>
      Kept o found false c' ∧ c'.reloader = c.reloader ∧ Added c.log 1 0 c'.log ∧
        c'.log.head? = some (.attempt found) := by
  refine (Meets.quiet (Q := fun found c' => Kept o found false
      ⟨c'.workspace, c'.reloader, .attempt found :: c'.log⟩ ∧ c'.reloader = c.reloader ∧
      c'.log = c.log)
    h.orderly fun found r w hrun => ?_).bind ?_
  · obtain ⟨rfl, hload⟩ := ok_of_work hrun
    rcases Work.load_outcome hload with ⟨rfl, hgraph, hlibrary⟩
      | ⟨m, rfl, hid, hdeps, hlibrary, hgraph⟩
    · exact ⟨h.missed hgraph hlibrary, rfl, rfl⟩
    · exact ⟨h.compiled hid (h.deps ▸ hdeps) hlibrary hgraph, rfl, rfl⟩
  · rintro found c₁ ⟨hkept, hloop, hlog⟩
    refine .tell (.pure ⟨hkept, hloop, ?_, rfl⟩)
    rw [hlog]
    exact Added.none.attempt found

/-- A version that waits to be installed is none of those that were. -/
theorem Kept.unseen {m v : Module} (h : Kept o (some m) ended c) (hv : .installed v ∈ c.log) :
    v.id ≠ m.id := by
  intro heq
  have hlt := (h.newest m rfl).newer v hv
  rw [heq] at hlt
  omega

/-- Nor was any of its functions called. -/
theorem Kept.uncalled {m : Module} (h : Kept o (some m) ended c) {name entry : String}
    {handle : FunctionHandle} (hentry : m.entryPoint? name = some handle) :
    .calls entry handle ∉ c.log := by
  intro hcalls
  obtain ⟨v, hv, hhome⟩ := h.orderly.installed_of_calls hcalls
  exact h.unseen hv (hhome.symm.trans (Module.home_of_entryPoint? hentry))

/-- How the parts go together once a version was installed. -/
theorem Kept.installed {m : Module} (h : Kept o (some m) false c)
    (hcurrent : c.reloader.current = none) :
    Kept o none false ⟨c.workspace, { c.reloader with
      update := ⟨"update", m.entryPoint? "update"⟩, terminate :=
        ⟨"terminate", m.entryPoint? "terminate"⟩,
      current := some m, state := .loaded }, .installed m :: c.log⟩ := by
  have hfresh := h.newest m rfl
  have hdead : ∀ u, ¬Live c.log u := by
    intro u hlive
    have hsome := (h.live u).1 hlive
    rw [hcurrent] at hsome
    cases hsome
  have hallowed : Allowed c.log (.installed m) := by
    refine ⟨hfresh.attempt, fun u hu => ⟨h.unseen hu, ?_⟩⟩
    by_contra hremoved
    exact hdead u ⟨hu, hremoved⟩
  have hmem : ∀ {d : Deed}, d ≠ .installed m → d ∈ Deed.installed m :: c.log → d ∈ c.log :=
    fun hne => (mem_cons_of_ne hne).1
  exact
    { orderly := ⟨hallowed, h.orderly⟩
      deps := h.deps
      names := ⟨rfl, rfl⟩
      update := fun handle hbound => ⟨m, rfl, hbound, fun hfails =>
        h.uncalled hbound (h.orderly.calls_of_fails (hmem (by simp) hfails))⟩
      terminate := fun _ => rfl
      unended := fun _ v hv t ht hended => by
        cases hv
        exact h.uncalled ht (hmem (by simp) hended)
      ended := fun hno => by cases hno
      live := fun u => by
        constructor
        · intro hu
          rcases List.mem_cons.1 hu.1 with heq | hinstalled
          · cases heq
            rfl
          · exact absurd ⟨hinstalled, fun hremoved => hu.2 (List.mem_cons_of_mem _ hremoved)⟩
              (hdead u)
        · intro hu
          cases hu
          refine ⟨List.mem_cons_self, fun hremoved => ?_⟩
          exact h.unseen (h.orderly.installed_of_removed (hmem (by simp) hremoved)) rfl
      settled := fun u hu => by
        rcases h.settled u (hmem (by simp) hu) with hinstalled | heq
        · exact .inl (List.mem_cons_of_mem _ hinstalled)
        · cases heq
          exact .inl List.mem_cons_self
      grows := h.grows
      known := fun u hu => by
        rcases List.mem_cons.1 hu with heq | hinstalled
        · cases heq
          exact ⟨hfresh.new, hfresh.given⟩
        · exact h.known u hinstalled
      newest := fun _ hno => by cases hno
      graph := fun hclosed => by
        have hbefore := h.graph hclosed
        rw [hcurrent] at hbefore
        show c.workspace.graph.modules = _
        rw [hbefore]
        simp }

/-- **A version that was compiled is installed**, when there is no other. -/
theorem Kept.install {m : Module} (h : Kept o (some m) false c)
    (hcurrent : c.reloader.current = none) :
    Meets (Told.install m) c fun _ c' => Kept o none false c' ∧ c'.reloader.current = some m ∧
      c'.reloader.state = .loaded ∧ Added c.log 0 0 c'.log ∧ c'.log.head? = some (.installed m) ∧
        c'.reloader.reloads = c.reloader.reloads := by
  refine (Meets.quiet (Q := fun _ c' => ∃ w, c.workspace.Alike w ∧ c' = ⟨w, { c.reloader with
    update := ⟨"update", m.entryPoint? "update"⟩, terminate :=
      ⟨"terminate", m.entryPoint? "terminate"⟩,
    current := some m, state := .loaded }, c.log⟩) h.orderly fun _ r w hrun => ?_).bind ?_
  · obtain ⟨halike, rfl⟩ := install_outcome hrun
    refine ⟨w, halike, ?_⟩
    rw [h.names.1, h.names.2]
  · rintro ⟨⟩ _ ⟨w, halike, rfl⟩
    exact ⟨(h.installed hcurrent).alike halike, rfl, rfl, Added.none.installed m, rfl, rfl⟩

end Reload

end Kiln
