import Kiln.Project.Graph
import Mathlib.Data.List.Find
import Mathlib.Data.List.Nodup
import Mathlib.Logic.Relation
/-!
# Modules that reach a module

The search for the dependents of a module goes from a queue to its importers, and looks at every
module once (`ModuleGraph.reaching`). It finds what reaches the queue by edges (`mem_reaching_iff`),
as far as it still looks, and nothing twice (`nodup_reaching`). So a graph without a module and its
dependents has no edge into what was taken out (`not_dangling`), and what is left is what it was
(`get?_removeWithDependents`). Nothing is asked of the shape of a graph but that no two of its
modules have one number (`ModuleGraph.Sorted`), which insertion and removal keep.
-/

namespace Kiln

namespace ModuleGraph

variable {g : ModuleGraph} {m n : Module} {a b id : ModuleId} {ms unseen : List Module}
  {queue : List ModuleId}

/-- A module of the list has one number, and was compiled against the other. -/
def Imports (ms : List Module) (a b : ModuleId) : Prop := ∃ n ∈ ms, n.id = a ∧ b ∈ n.deps

/-- Edges lead from one number to the other, one at least. -/
def Reaches (g : ModuleGraph) : ModuleId → ModuleId → Prop := Relation.TransGen (Imports g.modules)

/-- The modules are in order of their numbers. -/
def Sorted (g : ModuleGraph) : Prop := g.modules.Pairwise (·.id.index < ·.id.index)

/-- All that the modules were compiled against is there, the base library apart. -/
def Closed (g : ModuleGraph) : Prop :=
  ∀ n ∈ g.modules, ∀ d ∈ n.deps, d ≠ Module.base.id → g.contains d = true

/-! ## Graphs that are sorted -/

theorem mem_insertSorted : ∀ {ms : List Module}, n ∈ insertSorted m ms → n = m ∨ n ∈ ms
  | [], h => .inl (List.mem_singleton.1 h)
  | k :: ks, h => by
    rw [insertSorted] at h
    split at h
    · exact (List.mem_cons.1 h).imp_right (List.mem_cons_of_mem k)
    · split at h
      · exact List.mem_cons.1 h
      · rcases List.mem_cons.1 h with rfl | h
        · exact .inr List.mem_cons_self
        · exact (mem_insertSorted h).imp_right (List.mem_cons_of_mem k)

theorem pairwise_insertSorted : ∀ {ms : List Module}, ms.Pairwise (·.id.index < ·.id.index) →
    (insertSorted m ms).Pairwise (·.id.index < ·.id.index)
  | [], _ => List.pairwise_singleton _ _
  | k :: ks, h => by
    obtain ⟨hk, hks⟩ := List.pairwise_cons.1 h
    rw [insertSorted]
    split
    · rename_i heq
      exact List.pairwise_cons.2 ⟨fun n hn => heq ▸ hk n hn, hks⟩
    · rename_i hne
      split
      · rename_i hlt
        refine List.pairwise_cons.2 ⟨fun n hn => ?_, h⟩
        rcases List.mem_cons.1 hn with rfl | hn
        · exact hlt
        · exact Nat.lt_trans hlt (hk n hn)
      · rename_i hge
        refine List.pairwise_cons.2 ⟨fun n hn => ?_, pairwise_insertSorted hks⟩
        rcases mem_insertSorted hn with rfl | hn
        · have hindex : n.id.index ≠ k.id.index := fun heq => hne (congrArg ModuleId.mk heq)
          omega
        · exact hk n hn

theorem mem_of_mem_insert (h : n ∈ (g.insert m).modules) : n = m ∨ n ∈ g.modules :=
  mem_insertSorted h

/-- **A module that is inserted is found under its number**, and under any other what was found
before. -/
theorem get?_insert : (g.insert m).get? a = if m.id = a then some m else g.get? a := by
  obtain ⟨ms⟩ := g
  show (insertSorted m ms).find? (·.id = a) = if m.id = a then some m else ms.find? (·.id = a)
  induction ms with
  | nil => by_cases ha : m.id = a <;> simp [insertSorted, ha]
  | cons n ns ih =>
    rw [insertSorted]
    split
    · rename_i heq
      by_cases ha : m.id = a
      · simp [ha]
      · simp [ha, ← heq]
    · rename_i hne
      split
      · by_cases ha : m.id = a <;> simp [ha]
      · rw [List.find?_cons, List.find?_cons, ih]
        by_cases ha : m.id = a
        · have hn : n.id ≠ a := fun hn => hne (ha.trans hn.symm)
          simp [ha, hn]
        · simp [ha]

theorem sorted_empty : empty.Sorted := List.Pairwise.nil

/-- **Insertion keeps a graph sorted.** -/
theorem Sorted.insert (h : g.Sorted) (m : Module) : (g.insert m).Sorted := pairwise_insertSorted h

/-- **So does removal.** -/
theorem Sorted.removeWithDependents (h : g.Sorted) (id : ModuleId) :
    (g.removeWithDependents id).2.Sorted :=
  List.Pairwise.filter _ h

/-- A number has one module. -/
theorem Sorted.nodup (h : g.Sorted) : (g.modules.map (·.id)).Nodup := by
  refine List.pairwise_map.2 (h.imp fun hlt heq => ?_)
  rw [heq] at hlt
  exact Nat.lt_irrefl _ hlt

/-- A module with a larger number than all others comes last. -/
theorem insert_modules {g : ModuleGraph} {m : Module}
    (h : ∀ n ∈ g.modules, n.id.index < m.id.index) :
    (g.insert m).modules = g.modules ++ [m] := by
  have hsorted :
      ∀ ms : List Module, (∀ n ∈ ms, n.id.index < m.id.index) → insertSorted m ms = ms ++ [m] := by
    intro ms hms
    induction ms with
    | nil => rfl
    | cons n ns ih =>
      have hlt : n.id.index < m.id.index := hms n List.mem_cons_self
      have hne : m.id ≠ n.id := fun heq => by
        rw [heq] at hlt
        exact Nat.lt_irrefl _ hlt
      have hrest := ih fun k hk => hms k (List.mem_cons_of_mem n hk)
      rw [insertSorted, if_neg hne, if_neg (Nat.lt_asymm hlt), hrest]
      rfl
  exact hsorted g.modules h

/-! ## The search -/

theorem Imports.mono {ns : List Module} (hsub : ms ⊆ ns) (h : Imports ms a b) : Imports ns a b := by
  obtain ⟨n, hn, hid, hdep⟩ := h
  exact ⟨n, hsub hn, hid, hdep⟩

theorem reach_mono {ns : List Module} (hsub : ms ⊆ ns) (h : Relation.TransGen (Imports ms) a b) :
    Relation.TransGen (Imports ns) a b :=
  Relation.TransGen.mono (fun _ _ => Imports.mono hsub) _ _ h

theorem others_subset (id : ModuleId) (ms : List Module) : others id ms ⊆ ms :=
  fun _ hn => (List.mem_filter.1 hn).1

theorem mem_importers : n ∈ importers id ms ↔ n ∈ ms ∧ id ∈ n.deps := by
  rw [importers, List.mem_filter, List.contains_iff_mem]

theorem mem_others : n ∈ others id ms ↔ n ∈ ms ∧ id ∉ n.deps := by
  rw [others, List.mem_filter, Bool.not_eq_true', ← Bool.not_eq_true, List.contains_iff_mem]

theorem mem_map_importers : a ∈ (importers id ms).map (·.id) ↔ Imports ms a id := by
  rw [List.mem_map]
  constructor
  · rintro ⟨n, hn, rfl⟩
    exact ⟨n, (mem_importers.1 hn).1, rfl, (mem_importers.1 hn).2⟩
  · rintro ⟨n, hn, rfl, hdep⟩
    exact ⟨n, mem_importers.2 ⟨hn, hdep⟩, rfl⟩

/-- What reaches the head of a queue imports it, or reaches what is next in the queue without an
importer of the head on the way. -/
theorem exists_reach_of_cons {current : ModuleId} (h : Relation.TransGen (Imports unseen) a b)
    (hb : b ∈ current :: queue) : Imports unseen a current ∨
      ∃ c, (c ∈ queue ∨ Imports unseen c current) ∧
        Relation.TransGen (Imports (others current unseen)) a c := by
  induction h using Relation.TransGen.head_induction_on with
  | single hab =>
    obtain ⟨n, hn, rfl, hdep⟩ := hab
    by_cases hcurrent : current ∈ n.deps
    · exact .inl ⟨n, hn, rfl, hcurrent⟩
    · -- the last step of the way imports `b`, so `b` is not the head
      have hqueue : b ∈ queue := (List.mem_cons.1 hb).resolve_left fun heq => hcurrent (heq ▸ hdep)
      exact .inr ⟨b, .inl hqueue, .single ⟨n, mem_others.2 ⟨hn, hcurrent⟩, rfl, hdep⟩⟩
  | head hac _ ih =>
    obtain ⟨n, hn, rfl, hdep⟩ := hac
    by_cases hcurrent : current ∈ n.deps
    · exact .inl ⟨n, hn, rfl, hcurrent⟩
    · -- a module that does not import the head is still looked at afterwards
      have hstep : Imports (others current unseen) n.id _ :=
        ⟨n, mem_others.2 ⟨hn, hcurrent⟩, rfl, hdep⟩
      rcases ih with himports | ⟨c, hc, hreach⟩
      · exact .inr ⟨_, .inr himports, .single hstep⟩
      · exact .inr ⟨c, hc, .head hstep hreach⟩

/-- **The search finds what reaches its queue** by edges from modules that it still looks at. -/
theorem mem_reaching_iff : ∀ {unseen : List Module} {queue : List ModuleId},
    a ∈ reaching unseen queue ↔ ∃ b ∈ queue, Relation.TransGen (Imports unseen) a b
  | unseen, [] => by simp [reaching]
  | unseen, current :: queue => by
    rw [reaching, List.mem_append, mem_map_importers, mem_reaching_iff]
    constructor
    · rintro (himports | ⟨b, hb, hreach⟩)
      · exact ⟨current, List.mem_cons_self, .single himports⟩
      · have hreach := reach_mono (others_subset current unseen) hreach
        rcases List.mem_append.1 hb with hb | hb
        · exact ⟨b, List.mem_cons_of_mem _ hb, hreach⟩
        · exact ⟨current, List.mem_cons_self, hreach.tail (mem_map_importers.1 hb)⟩
    · rintro ⟨b, hb, hreach⟩
      refine (exists_reach_of_cons hreach hb).imp_right ?_
      rintro ⟨c, hc, hreach⟩
      exact ⟨c, List.mem_append.2 (hc.imp_right mem_map_importers.2), hreach⟩
termination_by unseen queue => unseen.length + queue.length
decreasing_by
  have := length_importers_add_length_others current unseen
  simp only [List.length_append, List.length_map, List.length_cons]
  omega

theorem mem_map_of_reaches (h : Relation.TransGen (Imports ms) a b) : a ∈ ms.map (·.id) := by
  obtain ⟨c, ⟨n, hn, rfl, -⟩, -⟩ := Relation.TransGen.head'_iff.1 h
  exact List.mem_map_of_mem hn

/-- **It finds nothing twice**, as it looks for nothing that it has found. -/
theorem nodup_reaching :
    ∀ {unseen : List Module} {queue : List ModuleId}, (unseen.map (·.id)).Nodup →
    (reaching unseen queue).Nodup
  | unseen, [], _ => by simp [reaching]
  | unseen, current :: queue, h => by
    rw [reaching]
    refine List.Nodup.append (h.sublist (List.filter_sublist.map _))
      (nodup_reaching (h.sublist (List.filter_sublist.map _))) ?_
    intro a hfound hlater
    obtain ⟨n, hn, rfl⟩ := List.mem_map.1 hfound
    obtain ⟨b, -, hreach⟩ := mem_reaching_iff.1 hlater
    obtain ⟨k, hk, heq⟩ := List.mem_map.1 (mem_map_of_reaches hreach)
    -- an importer and another module have different numbers
    obtain rfl := List.inj_on_of_nodup_map h (mem_others.1 hk).1 (mem_importers.1 hn).1 heq
    exact (mem_others.1 hk).2 (mem_importers.1 hn).2
termination_by unseen queue => unseen.length + queue.length
decreasing_by
  have := length_importers_add_length_others current unseen
  simp only [List.length_append, List.length_map, List.length_cons]
  omega

/-! ## Dependents -/

/-- On the way to a number it is enough to come by it once. -/
theorem reaches_without (h : g.Reaches a id) (hne : a ≠ id) :
    Relation.TransGen (Imports (g.modules.filter (·.id ≠ id))) a id := by
  induction h using Relation.TransGen.head_induction_on with
  | single hab =>
    obtain ⟨n, hn, rfl, hdep⟩ := hab
    exact .single ⟨n, List.mem_filter.2 ⟨hn, decide_eq_true hne⟩, rfl, hdep⟩
  | @head a c hac _ ih =>
    obtain ⟨n, hn, rfl, hdep⟩ := hac
    have hstep : Imports (g.modules.filter (·.id ≠ id)) n.id c :=
      ⟨n, List.mem_filter.2 ⟨hn, decide_eq_true hne⟩, rfl, hdep⟩
    by_cases hc : c = id
    · exact .single (hc ▸ hstep)
    · exact .head hstep (ih hc)

/-- **The dependents of a module are all that reach it**, without the module itself. -/
theorem mem_allDependents_iff : a ∈ g.allDependents id ↔ a ≠ id ∧ g.Reaches a id := by
  rw [allDependents, mem_reaching_iff]
  constructor
  · rintro ⟨b, hb, hreach⟩
    obtain rfl := List.mem_singleton.1 hb
    obtain ⟨n, hn, rfl⟩ := List.mem_map.1 (mem_map_of_reaches hreach)
    exact ⟨of_decide_eq_true (List.mem_filter.1 hn).2,
      reach_mono (fun _ hk => (List.mem_filter.1 hk).1) hreach⟩
  · rintro ⟨hne, hreach⟩
    exact ⟨id, List.mem_singleton_self id, reaches_without hreach hne⟩

theorem nodup_allDependents (h : g.Sorted) (id : ModuleId) : (g.allDependents id).Nodup :=
  nodup_reaching (h.nodup.sublist (List.filter_sublist.map _))

/-! ## Removal -/

theorem id_of_get? (h : g.get? a = some m) : m.id = a := by
  rw [get?] at h
  simpa using List.find?_some h

theorem contains_iff : g.contains a = true ↔ a ∈ g.modules.map (·.id) := by
  rw [contains, get?, List.find?_isSome, List.mem_map]
  simp only [decide_eq_true_eq]

/-- What is doomed with a module are its number and those that reach it. -/
theorem mem_doomed_iff : a ∈ id :: g.allDependents id ↔ a = id ∨ g.Reaches a id := by
  rw [List.mem_cons, mem_allDependents_iff]
  by_cases ha : a = id
  · simp [ha]
  · simp [ha]

/-- The numbers of the modules that are taken out: those of the doomed that are there. -/
theorem map_id_removed (g : ModuleGraph) (id : ModuleId) :
    (g.removeWithDependents id).1.map (·.id) = (id :: g.allDependents id).filter g.contains := by
  rw [removeWithDependents]
  dsimp only
  induction id :: g.allDependents id with
  | nil => rfl
  | cons a as ih =>
    rw [List.filter_cons, contains]
    cases hget : g.get? a with
    | none =>
      rw [List.filterMap_cons_none hget]
      exact ih
    | some n =>
      have hid : n.id = a := id_of_get? hget
      rw [List.filterMap_cons_some hget, List.map_cons, hid, ih]
      rfl

/-- **What is taken out is the module, if it is there, and all that reach it.** -/
theorem mem_removed_iff : a ∈ (g.removeWithDependents id).1.map (·.id) ↔
    g.contains a = true ∧ (a = id ∨ g.Reaches a id) := by
  rw [map_id_removed, List.mem_filter, mem_doomed_iff, and_comm]

theorem nodup_removed (h : g.Sorted) (id : ModuleId) :
    ((g.removeWithDependents id).1.map (·.id)).Nodup := by
  rw [map_id_removed]
  refine List.Nodup.filter _ (List.nodup_cons.2 ⟨fun hmem => ?_, nodup_allDependents h id⟩)
  exact (mem_allDependents_iff.1 hmem).1 rfl

/-- It comes first. -/
theorem head?_removed (h : g.contains id = true) :
    ((g.removeWithDependents id).1.map (·.id)).head? = some id := by
  rw [map_id_removed, List.filter_cons_of_pos h]
  rfl

theorem mem_removeWithDependents : n ∈ (g.removeWithDependents id).2.modules ↔
    n ∈ g.modules ∧ ¬(n.id = id ∨ g.Reaches n.id id) := by
  rw [← mem_doomed_iff, removeWithDependents, List.mem_filter, Bool.not_eq_true',
    ← Bool.not_eq_true, List.contains_iff_mem]

theorem contains_removeWithDependents : (g.removeWithDependents id).2.contains a = true ↔
    g.contains a = true ∧ ¬(a = id ∨ g.Reaches a id) := by
  rw [contains_iff, contains_iff, List.mem_map, List.mem_map]
  constructor
  · rintro ⟨n, hn, rfl⟩
    obtain ⟨hn, hkept⟩ := mem_removeWithDependents.1 hn
    exact ⟨⟨n, hn, rfl⟩, hkept⟩
  · rintro ⟨⟨n, hn, rfl⟩, hkept⟩
    exact ⟨n, mem_removeWithDependents.2 ⟨hn, hkept⟩, rfl⟩

/-- What is taken out is gone. -/
theorem get?_of_mem_removed (h : a ∈ (g.removeWithDependents id).1.map (·.id)) :
    (g.removeWithDependents id).2.get? a = none := by
  refine Option.not_isSome_iff_eq_none.1 fun hsome => ?_
  exact (contains_removeWithDependents.1 hsome).2 (mem_removed_iff.1 h).2

/-- **All other modules stay what they are.** -/
theorem get?_of_not_mem_removed (h : a ∉ (g.removeWithDependents id).1.map (·.id)) :
    (g.removeWithDependents id).2.get? a = g.get? a := by
  -- a doomed number that is not taken out was not there
  by_cases hdoomed : a = id ∨ g.Reaches a id
  · have habsent : ¬g.contains a = true := fun hc => h (mem_removed_iff.2 ⟨hc, hdoomed⟩)
    rw [Option.not_isSome_iff_eq_none.1 habsent]
    refine Option.not_isSome_iff_eq_none.1 fun hsome => ?_
    exact habsent (contains_removeWithDependents.1 hsome).1
  · rw [get?, get?, removeWithDependents, List.find?_filter]
    refine List.find?_congr fun n _ => ?_
    refine decide_eq_decide.2 ⟨fun hn => of_decide_eq_true hn.2, fun hn => ⟨?_, decide_eq_true hn⟩⟩
    rw [Bool.not_eq_true', ← Bool.not_eq_true, List.contains_iff_mem, mem_doomed_iff, hn]
    exact hdoomed

/-- **Nothing that is left was compiled against what was taken out**, nor against the module itself
if it was not there. -/
theorem not_dangling (hn : n ∈ (g.removeWithDependents id).2.modules) {d : ModuleId}
    (hd : d ∈ n.deps) :
    d ≠ id ∧ d ∉ (g.removeWithDependents id).1.map (·.id) := by
  obtain ⟨hmem, hkept⟩ := mem_removeWithDependents.1 hn
  have hedge : Imports g.modules n.id d := ⟨n, hmem, rfl, hd⟩
  refine ⟨fun heq => hkept (.inr (.single (heq ▸ hedge))), fun hgone => ?_⟩
  rcases (mem_removed_iff.1 hgone).2 with rfl | hreach
  · exact hkept (.inr (.single hedge))
  · exact hkept (.inr (.head hedge hreach))

/-- **A graph that is closed stays closed.** -/
theorem Closed.removeWithDependents (h : g.Closed) (id : ModuleId) :
    (g.removeWithDependents id).2.Closed := by
  intro n hn d hd hbase
  have hmem := (mem_removeWithDependents.1 hn).1
  rw [contains, get?_of_not_mem_removed (not_dangling hn hd).2]
  exact h n hmem d hd hbase

/-- Where edges lead to smaller numbers, so do ways along them. -/
theorem lt_of_reaches (h : ∀ n ∈ g.modules, ∀ d ∈ n.deps, d.index < n.id.index)
    (hreach : g.Reaches a b) :
    b.index < a.index := by
  induction hreach with
  | single hab =>
    obtain ⟨n, hn, rfl, hdep⟩ := hab
    exact h n hn _ hdep
  | tail _ hbc ih =>
    obtain ⟨n, hn, rfl, hdep⟩ := hbc
    exact Nat.lt_trans (h n hn _ hdep) ih

end ModuleGraph

end Kiln
