import Kiln.Proofs.Project.Dependents
import Mathlib.Data.List.Pairwise
import Mathlib.Order.Lattice.Nat
/-!
# The order in which dependents are found

How far a module is from another is told by the shortest walk along edges (`ModuleGraph.distance`).
The search for dependents takes them nearest first: whatever it has still to find lies farther away
than the head of its queue (`Search.distance_lt`), and whatever it finds there lies one edge farther
(`Search.distance_importer`). With what is found at all, and that nothing is found twice, this says
what the list of dependents is (`allDependents_lists`), whatever the shape of the graph.
-/

namespace Kiln

namespace ModuleGraph

variable {g : ModuleGraph} {ms unseen : List Module} {queue : List ModuleId}
  {a b c id : ModuleId} {k : Nat}

/-! ## Walks -/

/-- Edges lead from one number to the other, so many of them. -/
inductive Walk (ms : List Module) : Nat → ModuleId → ModuleId → Prop
  | here (a : ModuleId) : Walk ms 0 a a
  | step {k : Nat} {a b c : ModuleId} (himports : Imports ms a b) (hwalk : Walk ms k b c) :
      Walk ms (k + 1) a c

/-- The length of the shortest walk. -/
noncomputable def distance (ms : List Module) (id a : ModuleId) : Nat := sInf {k | Walk ms k a id}

theorem Walk.distance_le (h : Walk ms k a id) : distance ms id a ≤ k := Nat.sInf_le h

/-- **Where there is a walk, there is one as long as the distance.** -/
theorem Walk.shortest (h : Walk ms k a id) : Walk ms (distance ms id a) a id :=
  Nat.sInf_mem (s := {k | Walk ms k a id}) ⟨k, h⟩

/-- What reaches the start of a walk has a walk to its end. -/
theorem Walk.extend (h : Walk ms k b c) (hreach : Relation.TransGen (Imports ms) a b) :
    ∃ k, Walk ms k a c := by
  induction hreach using Relation.TransGen.head_induction_on with
  | single hab => exact ⟨k + 1, .step hab h⟩
  | head hab _ ih =>
    obtain ⟨k, hwalk⟩ := ih
    exact ⟨k + 1, .step hab hwalk⟩

/-- A walk between two numbers takes a step. -/
theorem Walk.pos (h : Walk ms k a b) (hne : a ≠ b) : 0 < k := by
  cases h with
  | here => exact absurd rfl hne
  | step => exact Nat.succ_pos _

/-- **The distance is the length of the shortest way there**, of one edge or more. -/
theorem isLeast_distance (h : g.Reaches a id) (hne : a ≠ id) :
    IsLeast {k | 0 < k ∧ Walk g.modules k a id} (distance g.modules id a) := by
  obtain ⟨k, hwalk⟩ := (Walk.here id).extend h
  have hshortest := hwalk.shortest
  exact ⟨⟨hshortest.pos hne, hshortest⟩, fun k hk => hk.2.distance_le⟩

/-! ## What holds as the search goes on -/

/-- How far the search for what reaches `id` has come: no module has been looked at that imports one
still to be looked at, and the queue is in order of distance. -/
structure Search (ms : List Module) (id : ModuleId) (unseen : List Module)
    (queue : List ModuleId) : Prop where
  subset : unseen ⊆ ms
  other : ∀ n ∈ unseen, n.id ≠ id
  /-- A way from an unseen module goes on to the queue, or to another that is unseen. -/
  ahead : ∀ n ∈ unseen, ∀ b ∈ n.deps, (∃ k, Walk ms k b id) → b ∈ queue ∨ b ∈ unseen.map (·.id)
  arrives : ∀ b ∈ queue, ∃ k, Walk ms k b id
  ordered : queue.Pairwise (distance ms id · ≤ distance ms id ·)
  /-- The queue never holds modules of more than two distances. -/
  narrow : ∀ a ∈ queue, ∀ b ∈ queue, distance ms id b ≤ distance ms id a + 1

namespace Search

variable {current : ModuleId}

theorem start (g : ModuleGraph) (id : ModuleId) :
    Search g.modules id (g.modules.filter (·.id ≠ id)) [id] where
  subset := fun _ hn => (List.mem_filter.1 hn).1
  other := fun _ hn => of_decide_eq_true (List.mem_filter.1 hn).2
  ahead := by
    rintro n - b - ⟨k, hwalk⟩
    by_cases hb : b = id
    · exact .inl (List.mem_singleton.2 hb)
    · obtain _ | ⟨⟨m, hm, rfl, -⟩, -⟩ := hwalk
      · exact absurd rfl hb
      · exact .inr (List.mem_map_of_mem (List.mem_filter.2 ⟨hm, decide_eq_true hb⟩))
  arrives := by
    rintro b hb
    rw [List.mem_singleton.1 hb]
    exact ⟨0, .here id⟩
  ordered := List.pairwise_singleton _ _
  narrow := by
    intro a ha b hb
    rw [List.mem_singleton.1 ha, List.mem_singleton.1 hb]
    exact Nat.le_succ _

variable (h : Search ms id unseen (current :: queue)) (hnodup : (ms.map (·.id)).Nodup)

include h hnodup

/-- **What is unseen lies farther away than the head of the queue.** -/
theorem lt_of_walk {n : Module} (hn : n ∈ unseen) (hwalk : Walk ms k n.id id) :
    distance ms id current < k := by
  induction k generalizing n with
  | zero =>
    generalize hid : n.id = a at hwalk
    cases hwalk
    exact absurd hid (h.other n hn)
  | succ k ih =>
    obtain _ | @⟨_, _, b, _, ⟨m, hm, hid, hb⟩, hrest⟩ := hwalk
    obtain rfl := List.inj_on_of_nodup_map hnodup hm (h.subset hn) hid
    rcases h.ahead m hn b hb ⟨k, hrest⟩ with hqueue | hunseen
    · -- the head is nearest of the queue
      have hle : distance ms id current ≤ distance ms id b := by
        rcases List.mem_cons.1 hqueue with rfl | hqueue
        · exact Nat.le_refl _
        · exact (List.pairwise_cons.1 h.ordered).1 _ hqueue
      exact Nat.lt_succ_of_le (Nat.le_trans hle hrest.distance_le)
    · obtain ⟨m', hm', rfl⟩ := List.mem_map.1 hunseen
      exact Nat.lt_succ_of_lt (ih hm' hrest)

theorem distance_lt {n : Module} (hn : n ∈ unseen) (hwalk : Walk ms k n.id id) :
    distance ms id current < distance ms id n.id :=
  h.lt_of_walk hnodup hn hwalk.shortest

/-- **What imports the head of the queue lies one edge farther away.** -/
theorem distance_importer (ha : a ∈ (importers current unseen).map (·.id)) :
    (∃ k, Walk ms k a id) ∧ distance ms id a = distance ms id current + 1 := by
  obtain ⟨n, hn, rfl⟩ := List.mem_map.1 ha
  obtain ⟨hunseen, hdep⟩ := mem_importers.1 hn
  obtain ⟨k, hcurrent⟩ := h.arrives current List.mem_cons_self
  have hwalk : Walk ms (distance ms id current + 1) n.id id :=
    .step ⟨n, h.subset hunseen, rfl, hdep⟩ hcurrent.shortest
  exact ⟨⟨_, hwalk⟩, Nat.le_antisymm hwalk.distance_le (h.distance_lt hnodup hunseen hwalk)⟩

/-- The search goes on behind the head of the queue. -/
theorem next :
    Search ms id (others current unseen) (queue ++ (importers current unseen).map (·.id)) where
  subset := fun _ hn => h.subset (others_subset current unseen hn)
  other := fun n hn => h.other n (others_subset current unseen hn)
  ahead := by
    intro n hn b hb hwalk
    obtain ⟨hunseen, hcurrent⟩ := mem_others.1 hn
    rcases h.ahead n hunseen b hb hwalk with hqueue | hb'
    · have hne : b ≠ current := fun heq => hcurrent (heq ▸ hb)
      exact .inl (List.mem_append_left _ ((List.mem_cons.1 hqueue).resolve_left hne))
    · obtain ⟨m, hm, rfl⟩ := List.mem_map.1 hb'
      by_cases hdep : current ∈ m.deps
      · exact .inl (List.mem_append_right _ (List.mem_map_of_mem (mem_importers.2 ⟨hm, hdep⟩)))
      · exact .inr (List.mem_map_of_mem (mem_others.2 ⟨hm, hdep⟩))
  arrives := by
    intro b hb
    rcases List.mem_append.1 hb with hb | hb
    · exact h.arrives b (List.mem_cons_of_mem _ hb)
    · exact (h.distance_importer hnodup hb).1
  ordered := by
    refine List.pairwise_append.2
      ⟨(List.pairwise_cons.1 h.ordered).2, List.pairwise_of_forall_mem_list ?_, ?_⟩
    · intro a ha b hb
      rw [(h.distance_importer hnodup ha).2, (h.distance_importer hnodup hb).2]
    · intro a ha b hb
      rw [(h.distance_importer hnodup hb).2]
      exact h.narrow current List.mem_cons_self a (List.mem_cons_of_mem _ ha)
  narrow := by
    have hhead :
        ∀ a ∈ queue, distance ms id current ≤ distance ms id a := (List.pairwise_cons.1 h.ordered).1
    intro a ha b hb
    rcases List.mem_append.1 ha with ha | ha <;> rcases List.mem_append.1 hb with hb | hb
    · exact h.narrow a (List.mem_cons_of_mem _ ha) b (List.mem_cons_of_mem _ hb)
    · have hle := hhead a ha
      have hfound := (h.distance_importer hnodup hb).2
      omega
    · have hle := h.narrow current List.mem_cons_self b (List.mem_cons_of_mem _ hb)
      have hfound := (h.distance_importer hnodup ha).2
      omega
    · rw [(h.distance_importer hnodup ha).2, (h.distance_importer hnodup hb).2]
      exact Nat.le_succ _

end Search

/-- **What the search finds is in order of distance.** -/
theorem pairwise_reaching (hnodup : (ms.map (·.id)).Nodup) :
    ∀ {unseen : List Module} {queue : List ModuleId},
    Search ms id unseen queue →
      (reaching unseen queue).Pairwise (distance ms id · ≤ distance ms id ·)
  | unseen, [], _ => by simp [reaching]
  | unseen, current :: queue, h => by
    rw [reaching]
    refine List.pairwise_append.2
      ⟨List.pairwise_of_forall_mem_list ?_, pairwise_reaching hnodup (h.next hnodup), ?_⟩
    · intro a ha b hb
      rw [(h.distance_importer hnodup ha).2, (h.distance_importer hnodup hb).2]
    · intro a ha b hb
      -- what is found later was unseen so far, so it lies behind the head too
      obtain ⟨c, hc, hreach⟩ := mem_reaching_iff.1 hb
      obtain ⟨n, hn, rfl⟩ := List.mem_map.1 (mem_map_of_reaches hreach)
      have hnext := h.next hnodup
      obtain ⟨k, hrest⟩ := hnext.arrives c hc
      obtain ⟨k, hwalk⟩ := hrest.extend (reach_mono hnext.subset hreach)
      rw [(h.distance_importer hnodup ha).2]
      exact h.distance_lt hnodup (others_subset current unseen hn) hwalk
termination_by unseen queue => unseen.length + queue.length
decreasing_by
  have := length_importers_add_length_others current unseen
  simp only [List.length_append, List.length_map, List.length_cons]
  omega

/-! ## The list of dependents -/

/-- The list is that of the modules that reach a module. -/
structure ListsDependents (g : ModuleGraph) (id : ModuleId) (found : List ModuleId) : Prop where
  /-- It has those loaded modules from which edges lead there, without the module itself. -/
  mem : ∀ a, a ∈ found ↔ g.contains a = true ∧ a ≠ id ∧ g.Reaches a id
  /-- It has each of them once. -/
  nodup : found.Nodup
  /-- The nearer come first. -/
  nearest : found.Pairwise (distance g.modules id · ≤ distance g.modules id ·)
  /-- How near one is is told by the least number of edges that lead there, which is not zero. -/
  shortest : ∀ a ∈ found, IsLeast {k | 0 < k ∧ Walk g.modules k a id} (distance g.modules id a)

/-- **The dependents of a module are listed nearest first**, each of them once and the module itself
never. Edges may lead anywhere: twice to one module, back to where they come from, or to a number
that no module has. -/
theorem allDependents_lists (h : g.Sorted) (id : ModuleId) :
    g.ListsDependents id (g.allDependents id) where
  mem := fun a => by
    rw [mem_allDependents_iff, contains_iff]
    exact ⟨fun ⟨hne, hreach⟩ => ⟨mem_map_of_reaches hreach, hne, hreach⟩,
      fun ⟨_, hne, hreach⟩ => ⟨hne, hreach⟩⟩
  nodup := nodup_allDependents h id
  nearest := pairwise_reaching h.nodup (.start g id)
  shortest := fun a ha => by
    obtain ⟨hne, hreach⟩ := mem_allDependents_iff.1 ha
    exact isLeast_distance hreach hne

/-- A module in a ring of three has a dependent outside of the ring, which needs a number that is
not loaded, and one that reaches it both ways round; of two at one distance that comes first which
imports the earlier. -/
theorem allDependents_lists_ring :
    let loaded (number : Nat) (deps : List Nat) : Module :=
      ⟨⟨number⟩, "m", deps.map ModuleId.mk, [], [], []⟩
    let g : ModuleGraph :=
      ⟨[loaded 1 [2], loaded 2 [5, 5], loaded 3 [1, 9], loaded 4 [3, 2], loaded 5 [1]]⟩
    g.Sorted ∧ g.allDependents ⟨1⟩ = [⟨3⟩, ⟨5⟩, ⟨4⟩, ⟨2⟩] ∧
    g.ListsDependents ⟨1⟩ (g.allDependents ⟨1⟩) := by
  intro loaded g
  have hsorted : g.Sorted := by
    unfold Sorted
    decide
  refine ⟨hsorted, ?_, allDependents_lists hsorted ⟨1⟩⟩
  cbv

end ModuleGraph

end Kiln
