import Kiln.Proofs.Workspace.Stocked
/-!
# Names of arrays that are free again

The name of an array is entered twice, for its operations and for its wrapper, and the two entries
go by the graph: an entry goes when its own module does. The operations depend on the wrapper, so
both go with the wrapper and the name is free. If only the operations go the wrapper keeps the name,
and the array cannot be declared again (`Workspace.Worked.unload_array`).
-/

namespace Kiln

open Work

namespace Workspace

variable {w w₁ w₂ w' : Workspace} {declared : Option String} {name : String}

/-- Workspaces that come about by steps. What is declared need not be taken in. -/
inductive Worked : Workspace → Prop
  | initial (limit : Nat) (files : Files) : Worked (.initial limit files)
  | step {w w' : Workspace} {declared : Option String} : Worked w → w.Step declared w' → Worked w'

/-- Workspaces to which steps lead that declare no container of the name. -/
inductive Later (name : String) (w : Workspace) : Workspace → Prop
  | refl : Later name w w
  | step {w₁ w' : Workspace} {declared : Option String} : Later name w w₁ → w₁.Step declared w' →
      declared ≠ some name → Later name w w'

theorem Worked.tidy (h : w.Worked) : w.Tidy := by
  induction h with
  | initial limit files => exact tidy_initial limit files
  | step _ hstep ih => exact ih.step hstep

theorem Later.tidy (h : w.Later name w') (hw : w.Tidy) : w'.Tidy := by
  induction h with
  | refl => exact hw
  | step _ hstep _ ih => exact ih.step hstep

/-- What there is of a name was there before, and a wrapper that was loaded still is. -/
structure Recalls (name : String) (w w' : Workspace) : Prop where
  wrapper : ∀ id, w'.registry.wrappers.find? name = some id →
    w.registry.wrappers.find? name = some id ∧
    (w.graph.contains id = true → w'.graph.contains id = true)
  array : ∀ id, w'.registry.arrays.find? name = some id → w.registry.arrays.find? name = some id

theorem Recalls.refl (w : Workspace) : w.Recalls name w := ⟨fun _ h => ⟨h, id⟩, fun _ => id⟩

theorem Recalls.trans (h : w.Recalls name w₁) (h' : w₁.Recalls name w') : w.Recalls name w' where
  wrapper := fun id hid => by
    obtain ⟨hid, hloaded'⟩ := h'.wrapper id hid
    obtain ⟨hid, hloaded⟩ := h.wrapper id hid
    exact ⟨hid, hloaded' ∘ hloaded⟩
  array := fun id hid => h.array id (h'.array id hid)

theorem Shift.recalls (h : w.Shift w') (hw : w.Tidy) (name : String) : w.Recalls name w' := by
  cases h with
  | spares hspares =>
    obtain ⟨-, hgraph, hregistry⟩ := hspares
    exact ⟨fun id hid => ⟨hregistry ▸ hid, fun hloaded => hgraph ▸ hloaded⟩,
      fun id hid => hregistry ▸ hid⟩
  | gains m hgrows hm hgraph hregistry =>
    refine ⟨fun id hid => ⟨hregistry ▸ hid, fun hloaded => ?_⟩, fun id hid => hregistry ▸ hid⟩
    obtain ⟨n, hn⟩ := Option.isSome_iff_exists.1 hloaded
    exact hgraph ▸ Option.isSome_iff_exists.2 ⟨n, (hw.held.grow hgrows).get?_insert hm hn⟩
  | loses id hlibrary hgraph hregistry =>
    refine ⟨fun found hfound => ?_, fun found hfound => ?_⟩
    · rw [hregistry, hw.sorted.find?_wrappers_forget] at hfound
      refine ⟨hfound.1, fun hloaded => ?_⟩
      rwa [hgraph, ModuleGraph.contains, ModuleGraph.get?_of_not_mem_removed hfound.2]
    · rw [hregistry, hw.sorted.find?_arrays_forget] at hfound
      exact hfound.1

/-- **A step that does not declare the name enters nothing for it.** -/
theorem Step.recalls (h : w.Step declared w') (hw : w.Tidy) (hother : declared ≠ some name) :
    w.Recalls name w' := by
  cases declared with
  | none => exact h.shift.recalls hw name
  | some other =>
    have hname : name ≠ other := fun heq => hother (congrArg some heq.symm)
    have hinsert :
        ∀ (m : NameMap ModuleId) (id : ModuleId), (m.insert other id).find? name = m.find? name :=
      fun m id => (NameMap.find?_insert m other name id).trans (if_neg hname)
    cases h with
    | wrapper hdeclare =>
      obtain ⟨-, -, -, -, -, hgraph, hregistry⟩ := gains_of_declareWrapper hdeclare
      refine ⟨fun id hid => ⟨?_, fun hloaded => hgraph ▸ hloaded⟩, fun id hid => ?_⟩
      · rwa [hregistry, hinsert] at hid
      · rwa [hregistry] at hid
    | array hdeclare =>
      obtain ⟨-, -, -, -, -, -, -, hgraph, hregistry⟩ := gains_of_declareArray hdeclare
      refine ⟨fun id hid => ⟨?_, fun hloaded => hgraph ▸ hloaded⟩, fun id hid => ?_⟩
      · rwa [hregistry, hinsert] at hid
      · rwa [hregistry, hinsert] at hid

theorem Later.recalls (h : w.Later name w') (hw : w.Tidy) : w.Recalls name w' := by
  induction h with
  | refl => exact .refl w
  | step hbefore hstep hother ih => exact ih.trans (hstep.recalls (hbefore.tidy hw) hother)

/-! ## The two modules of an array -/

theorem GainsArray.id_ne {ops wrapper : Module} (h : w.GainsArray name ops wrapper w') :
    wrapper.id ≠ ops.id := by
  rw [h.id]
  refine Library.ne_nextId ?_
  rw [h.wrapper_id]
  exact Source.find?_push_nextId _ _

/-- What is entered for an array as long as no other container gets its name. -/
theorem GainsArray.entries {ops wrapper : Module}
    (h : w.GainsArray name ops wrapper w₁) (hw : w.Tidy) (hlater : w₁.Later name w') :
    (∀ id, w'.registry.wrappers.find? name = some id → id = wrapper.id) ∧
      ∀ id, w'.registry.arrays.find? name = some id → id = ops.id := by
  have hrecalls := hlater.recalls (hw.gainsArray h)
  refine ⟨fun id hid => ?_, fun id hid => ?_⟩
  · have hfirst := (hrecalls.wrapper id hid).1
    rw [h.registry, NameMap.find?_insert, if_pos rfl] at hfirst
    exact (Option.some.inj hfirst).symm
  · have hfirst := hrecalls.array id hid
    rw [h.registry, NameMap.find?_insert, if_pos rfl] at hfirst
    exact (Option.some.inj hfirst).symm

/-! ## Unloading one of them -/

section Unloading

variable {ops wrapper m : Module} {gone : List ModuleId} (hw : w.Tidy)
  (hunload : Work.unload m w = .ok gone w')

include hw hunload

theorem find?_wrappers_unload {id : ModuleId} : w'.registry.wrappers.find? name = some id ↔
    w.registry.wrappers.find? name = some id ∧
      id ∉ (w.graph.removeWithDependents m.id).1.map (·.id) := by
  rw [(unload_outcome hunload).2.2, hw.sorted.find?_wrappers_forget]

theorem find?_arrays_unload {id : ModuleId} : w'.registry.arrays.find? name = some id ↔
    w.registry.arrays.find? name = some id ∧
      id ∉ (w.graph.removeWithDependents m.id).1.map (·.id) := by
  rw [(unload_outcome hunload).2.2, hw.sorted.find?_arrays_forget]

/-- The operations of an array go with either of its modules, and with them its entry. -/
theorem no_array_of_unload (hops : w.graph.get? ops.id = some ops) (hdeps : ops.deps = [wrapper.id])
    (hentry : ∀ id, w.registry.arrays.find? name = some id → id = ops.id)
    (hm : m.id = ops.id ∨ m.id = wrapper.id) : w'.registry.arrays.find? name = none := by
  have hgone : ops.id ∈ (w.graph.removeWithDependents m.id).1.map (·.id) := by
    refine ModuleGraph.mem_removed_iff.2 ⟨Option.isSome_iff_exists.2 ⟨_, hops⟩, ?_⟩
    rcases hm with heq | heq
    · exact .inl heq.symm
    · refine .inr (.single ⟨ops, List.mem_of_find?_eq_some hops, rfl, ?_⟩)
      rw [hdeps, heq]
      exact List.mem_singleton_self _
  refine Option.eq_none_iff_forall_ne_some.2 fun id hid => ?_
  obtain ⟨hid, hkept⟩ := (find?_arrays_unload hw hunload).1 hid
  exact hkept (hentry id hid ▸ hgone)

/-- The entry of a wrapper goes with it, for as long as no other gets its name. -/
theorem no_wrapper_of_unload {last : Workspace} (hwrapper : w.graph.get? wrapper.id = some wrapper)
    (hentry : ∀ id, w.registry.wrappers.find? name = some id → id = wrapper.id)
    (hrecalls : w'.Recalls name last)
    (hgone : m.id = wrapper.id ∨ last.graph.contains wrapper.id = false) :
    last.registry.wrappers.find? name = none := by
  refine Option.eq_none_iff_forall_ne_some.2 fun id hid => ?_
  obtain ⟨hleft, hloaded⟩ := hrecalls.wrapper id hid
  obtain ⟨hfirst, hkept⟩ := (find?_wrappers_unload hw hunload).1 hleft
  obtain rfl := hentry id hfirst
  have hthere : w.graph.contains wrapper.id = true := Option.isSome_iff_exists.2 ⟨_, hwrapper⟩
  rcases hgone with heq | habsent
  · exact hkept (ModuleGraph.mem_removed_iff.2 ⟨hthere, .inl heq.symm⟩)
  · -- the wrapper was not taken out, so it is still there
    have hstill : w'.graph.contains wrapper.id = true := by
      rwa [(unload_outcome hunload).2.1, ModuleGraph.contains,
        ModuleGraph.get?_of_not_mem_removed hkept]
    exact Bool.false_ne_true (habsent.symm.trans (hloaded hstill))

/-- A wrapper depends on nothing, so it stays when another module goes, and with it its entry. -/
theorem wrapper_of_unload (hwrapper : w.graph.get? wrapper.id = some wrapper)
    (hdeps : wrapper.deps = []) (hne : wrapper.id ≠ m.id)
    (hentry : w.registry.wrappers.find? name = some wrapper.id) :
    w'.registry.wrappers.find? name = some wrapper.id := by
  refine (find?_wrappers_unload hw hunload).2 ⟨hentry, fun hgone => ?_⟩
  rcases (ModuleGraph.mem_removed_iff.1 hgone).2 with heq | hreach
  · exact hne heq
  · obtain ⟨_, ⟨n, hn, hid, hdep⟩, -⟩ := Relation.TransGen.head'_iff.1 hreach
    -- a number has one module, so this one depends on nothing
    have hfound := hw.held n hn
    rw [hid, hw.held wrapper (List.mem_of_find?_eq_some hwrapper)] at hfound
    cases hfound
    rw [hdeps] at hdep
    cases hdep

end Unloading

/-- **An array is free again when its wrapper is gone.** When either of its modules is unloaded its
operations go, and nothing is the array of its name any more. The name is free if the wrapper was
unloaded, or is not loaded for another reason; if it was the operations, the wrapper keeps the
name. -/
theorem Worked.unload_array (hw : w.Worked) {elem : TypeExpr} {ops wrapper m : Module}
    {gone : List ModuleId} {w₃ : Workspace}
    (hdeclare : (declareArray elem).run w = .ok (.ok (ops, wrapper)) w₁)
    (hmeanwhile : w₁.Later elem.arrayName w₂) (hops : w₂.graph.get? ops.id = some ops)
    (hwrapper : w₂.graph.get? wrapper.id = some wrapper) (hm : m.id = ops.id ∨ m.id = wrapper.id)
    (hunload : Work.unload m w₂ = .ok gone w₃) (hlater : w₃.Later elem.arrayName w') :
    w'.registry.arrays.find? elem.arrayName = none ∧
      (m.id = wrapper.id ∨ w'.graph.contains wrapper.id = false →
        ¬∃ other last, (declareArray elem).run w' = .ok (.error (.duplicate other)) last) ∧
      (m.id = ops.id →
        ((∃ other last, (declareArray elem).run w₃ = .ok (.error (.duplicate other)) last) ↔
        w₂.registry.wrappers.contains elem.arrayName = true)) := by
  have hgains := gains_of_declareArray hdeclare
  have hw₂ : w₂.Tidy := hmeanwhile.tidy (hw.tidy.gainsArray hgains)
  have hrecalls := hlater.recalls (hw₂.step (.unload hunload))
  obtain ⟨hwrappers, harrays⟩ := hgains.entries hw.tidy hmeanwhile
  have hnoArray := no_array_of_unload hw₂ hunload hops hgains.deps harrays hm
  have hnoArray' : w'.registry.arrays.find? elem.arrayName = none :=
    Option.eq_none_iff_forall_ne_some.2 fun id hid =>
      Option.eq_none_iff_forall_ne_some.1 hnoArray id (hrecalls.array id hid)
  refine ⟨hnoArray', fun hgone => ?_, fun hid => ?_⟩
  · have hnoWrapper := no_wrapper_of_unload hw₂ hunload hwrapper hwrappers hrecalls hgone
    rw [declareArray_duplicate_iff, NameMap.contains_eq_false_iff.2 hnoArray',
      NameMap.contains_eq_false_iff.2 hnoWrapper, or_self]
    exact Bool.false_ne_true
  · rw [declareArray_duplicate_iff, NameMap.contains_eq_false_iff.2 hnoArray,
      or_iff_right Bool.false_ne_true]
    constructor
    · intro htaken
      obtain ⟨id, hid⟩ := Option.isSome_iff_exists.1 htaken
      exact Option.isSome_iff_exists.2 ⟨id, ((find?_wrappers_unload hw₂ hunload).1 hid).1⟩
    · intro htaken
      obtain ⟨id, hentry⟩ := Option.isSome_iff_exists.1 htaken
      obtain rfl := hwrappers id hentry
      exact Option.isSome_iff_exists.2
        ⟨_, wrapper_of_unload hw₂ hunload hwrapper hgains.wrapper_deps (hid ▸ hgains.id_ne) hentry⟩

/-! ## The array of bytes -/

/-- The array of bytes as it was declared where there was nothing yet, and taken in. -/
structure Bytes (w : Workspace) (ops wrapper : Module) : Prop where
  declared :
    ∃ w₁, (declareArray byteType).run (.initial 4096 (.empty "/")) = .ok (.ok (ops, wrapper)) w₁ ∧
    w₁.Later byteType.arrayName w
  ops_loaded : w.graph.get? ops.id = some ops
  wrapper_loaded : w.graph.get? wrapper.id = some wrapper
  entered : w.registry.wrappers.find? byteType.arrayName = some wrapper.id

theorem exists_bytes_loaded : ∃ w ops wrapper, Bytes w ops wrapper := by
  obtain ⟨ops, wrapper, w₁, w₂, w, hdeclare, hwrapper, hadopt⟩ := exists_bytes
  have hgains := gains_of_declareArray hdeclare
  obtain ⟨hfound, hfound'⟩ := hgains.find?
  have hheld := ((tidy_initial _ _).gainsArray hgains).held
  refine ⟨w, ops, wrapper, ⟨w₁, hdeclare, ?_⟩, ?_, ?_, ?_⟩
  · cases hwrapper
    exact (Later.refl.step (.adopt hfound rfl) nofun).step (.adopt hfound' hadopt) nofun
  · cases hadopt
    exact ModuleGraph.get?_insert.trans (if_pos rfl)
  · cases hwrapper
    cases hadopt
    exact (hheld.insert hfound).get?_insert hfound' (ModuleGraph.get?_insert.trans (if_pos rfl))
  · cases hwrapper
    cases hadopt
    exact (congrArg (·.wrappers.find? byteType.arrayName) hgains.registry).trans
      ((NameMap.find?_insert _ _ _ _).trans (if_pos rfl))

/-- The operations of the array of bytes are unloaded: there is no array, and none can be
declared. -/
theorem unload_array_taken :
    ∃ w ops wrapper gone w', Bytes w ops wrapper ∧ Work.unload ops w = .ok gone w' ∧
    w'.registry.arrays.find? byteType.arrayName = none ∧
    (declareArray byteType).run w' = .ok (.error (.duplicate byteType.arrayName)) w' := by
  obtain ⟨w, ops, wrapper, hbytes⟩ := exists_bytes_loaded
  obtain ⟨w₁, hdeclare, hlater⟩ := hbytes.declared
  have hgains := gains_of_declareArray hdeclare
  have hw : w.Tidy := hlater.tidy ((tidy_initial _ _).gainsArray hgains)
  have hunload : Work.unload ops w = .ok _ _ := rfl
  have hkept := wrapper_of_unload hw hunload hbytes.wrapper_loaded hgains.wrapper_deps hgains.id_ne
    hbytes.entered
  have hnone := no_array_of_unload hw hunload hbytes.ops_loaded hgains.deps
    (hgains.entries (tidy_initial _ _) hlater).2 (.inl rfl)
  exact ⟨w, ops, wrapper, _, _, hbytes, hunload, hnone,
    declareArray_taken (.inr (Option.isSome_iff_exists.2 ⟨_, hkept⟩))⟩

/-- The wrapper of the array of bytes is unloaded: there is no array, and its name is free. -/
theorem Worked.unload_array_bytes : ∃ w ops wrapper gone w', Bytes w ops wrapper ∧
    Work.unload wrapper w = .ok gone w' ∧ w'.registry.arrays.find? byteType.arrayName = none ∧
    ¬∃ other last, (declareArray byteType).run w' = .ok (.error (.duplicate other)) last := by
  obtain ⟨w, ops, wrapper, hbytes⟩ := exists_bytes_loaded
  obtain ⟨w₁, hdeclare, hlater⟩ := hbytes.declared
  have hspec := Worked.unload_array (.initial 4096 (.empty "/")) hdeclare hlater
    hbytes.ops_loaded hbytes.wrapper_loaded (.inr rfl) (rfl : Work.unload wrapper w = _) .refl
  exact ⟨w, ops, wrapper, _, _, hbytes, rfl, hspec.1, hspec.2.1 (.inl rfl)⟩

end Workspace

end Kiln
