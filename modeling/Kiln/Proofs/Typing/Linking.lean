import Kiln.Proofs.Machine.Signing
import Kiln.Proofs.Typing.Units
import Mathlib.Logic.Relation
/-!
# Where calls go

The code of a module calls functions of the module itself, of those that it was compiled against and
of the base library, and none else (`Library.Linked`). That is read off its type: every part of
typed code is typed (`HasType.part`), a call has a type only where the function that it goes to is
offered, and a unit that is accepted is typed already by an interface that offers the functions of
those modules alone (`Interface.Knows.restrict`).
-/

namespace Kiln

/-! ## Parts of typed code -/

section Parts

variable {P : Interface} {home : ModuleId} {slots : List Ty} {A B : Assigned} {c d : Code} {t : Ty}

theorem HasTypes.mem :
    ∀ {A B : Assigned} {cs : List Code} {ts : List Ty}, HasTypes P home slots A cs ts B →
    d ∈ cs → ∃ A' u B', HasType P home slots A' d u B'
  | _, _, _, _, .cons h hs, hd => by
    rcases List.mem_cons.1 hd with rfl | hd
    · exact ⟨_, _, _, h⟩
    · exact hs.mem hd

/-- The operands of typed code are typed. -/
theorem HasType.operand (h : HasType P home slots A c t B) (hd : d ∈ c.operands) :
    ∃ A' u B', HasType P home slots A' d u B' := by
  cases h with
  | const _ | getLocal _ _ | getGlobal _ | foreignGlobal _ => cases hd
  | setLocal _ h _ | setGlobal _ h _ | not h | fieldPtr h | fieldGet h _ _ | load h
      | cast h _ | addr h
  | seqLen h =>
    rw [List.mem_singleton.1 hd]
    exact ⟨_, _, _, h⟩
  | block h | call _ h _ | make _ h _ | seqLit h => exact h.mem hd
  | branch h hyes hno _ =>
    rcases List.mem_cons.1 hd with rfl | hd
    · exact ⟨_, _, _, h⟩
    · rcases List.mem_cons.1 hd with rfl | hd
      · exact ⟨_, _, _, hyes⟩
      · rw [List.mem_singleton.1 hd]
        exact ⟨_, _, _, hno⟩
  | when h h' _ | loop h h' | binary h h' _ | and h h' | or h h' | store h h' | offset h h'
      | seqCopy h h' =>
    rcases List.mem_cons.1 hd with rfl | hd
    · exact ⟨_, _, _, h⟩
    · rw [List.mem_singleton.1 hd]
      exact ⟨_, _, _, h'⟩

/-- **Every part of typed code is typed.** -/
theorem HasType.part (h : HasType P home slots A c t B) (hd : Code.Part d c) :
    ∃ A' u B', HasType P home slots A' d u B' := by
  induction hd generalizing A B t with
  | all => exact ⟨_, _, _, h⟩
  | operand hmem _ ih =>
    obtain ⟨_, _, _, h⟩ := h.operand hmem
    exact ih h

/-- Typed code calls what the interface offers. -/
theorem Code.Takes.offered {params : List Ty} {result : Ty} {n : Nat}
    (h : c.Takes P home params result n) {callee : Callee} {args : List Code}
    (hpart : Code.Part (.call callee args) c) :
    ∃ sig, P.function (callee.handle home) = some sig := by
  obtain ⟨_, _, _, _, -, -, -, hc, -⟩ := h
  obtain ⟨_, _, _, hcall⟩ := hc.part hpart
  cases hcall with
  | call hf _ _ => exact ⟨_, hf⟩

end Parts

/-! ## Interfaces of some modules -/

/-- The interface without the functions of modules other than some. -/
def Interface.restrict (P : Interface) (near : List ModuleId) : Interface :=
  { P with function := fun handle => if handle.home ∈ near then P.function handle else none }

/-- The functions that the names of a unit mean are those of its module, of its dependencies and of
the base library. -/
theorem Names.mem_of_function? {names : Names} {name : String} {callee : Callee}
    {params : List Param} {result : Ty} (h : names.function? name = some (callee, params, result)) :
    (callee.handle names.home).home ∈ names.home :: Module.base.id :: names.deps.map (·.id) := by
  unfold Names.function? at h
  split at h
  · obtain ⟨_, -, heq⟩ := Option.bind_eq_some_iff.1 h
    cases heq
    exact List.mem_cons_self
  · obtain ⟨m, hm, hfound⟩ := List.exists_of_findSome?_eq_some h
    obtain ⟨_, -, hrest⟩ := Option.bind_eq_some_iff.1 hfound
    obtain ⟨_, -, heq⟩ := Option.bind_eq_some_iff.1 hrest
    cases heq
    refine List.mem_cons_of_mem _ ?_
    rcases List.mem_append.1 hm with hm | hm
    · exact List.mem_cons_of_mem _ (List.mem_map_of_mem hm)
    · rw [List.mem_singleton.1 hm]
      exact List.mem_cons_self

/-- **What the names of a unit mean is offered** by its module, its dependencies and the base
library. -/
theorem Interface.Knows.restrict {P : Interface} {names : Names} (h : P.Knows names) :
    (P.restrict (names.home :: Module.base.id :: names.deps.map (·.id))).Knows names :=
  ⟨h.mixed, h.layouts, h.grounded, h.ownGlobal, h.foreignGlobal, fun hf =>
    (if_pos (Names.mem_of_function? hf)).trans (h.function hf)⟩

/-! ## Linked libraries -/

namespace Library

/-- The module of the one number was compiled against that of the other. -/
def DependsOn (lib : Library) (a b : ModuleId) : Prop := ∃ m, lib.find? a = some m ∧ b ∈ m.deps

/-- The one module is the other, or depends on it however far. -/
def Reaches (lib : Library) : ModuleId → ModuleId → Prop := Relation.ReflTransGen lib.DependsOn

/-- Code of the module `home` may call functions of the other. -/
def Offers (lib : Library) (home other : ModuleId) : Prop :=
  other = home ∨ other = Module.base.id ∨ lib.DependsOn home other

end Library

/-- The code, of the module `home`, calls functions of modules only that are offered to it. -/
def Code.Linked (lib : Library) (home : ModuleId) (c : Code) : Prop :=
  ∀ callee args, Code.Part (.call callee args) c → lib.Offers home (callee.handle home).home

/-- All code of a library is linked. -/
def Library.Linked (lib : Library) : Prop :=
  ∀ handle f slots code, lib.function? handle = some f → f.body = .code slots code →
    code.Linked lib handle.home

namespace Library

variable {lib later : Library}

theorem DependsOn.mono (h : lib.Grows later) {a b : ModuleId} :
    lib.DependsOn a b → later.DependsOn a b
  | ⟨m, hm, hb⟩ => ⟨m, h a m hm, hb⟩

end Library

theorem Code.Linked.mono {lib later : Library} (h : lib.Grows later) {home : ModuleId} {c : Code}
    (hc : c.Linked lib home) : c.Linked later home :=
  fun callee args hpart => (hc callee args hpart).imp_right (Or.imp_right (.mono h))

/-- The functions of the base library are the host's. -/
theorem Library.native_of_base {lib : Library} (hbase : Library.initial.Grows lib)
    {handle : FunctionHandle} {f : Function} (hhome : handle.home = Module.base.id)
    (hf : lib.function? handle = some f) :
    ∃ op, f.body = .native op := by
  obtain ⟨m, hm, hf⟩ := Option.bind_eq_some_iff.1 hf
  rw [hhome, hbase Module.base.id Module.base rfl] at hm
  cases hm
  -- the base library comes first in every library, and is small enough to look through
  have hall : ∀ f ∈ Module.base.functions, ∃ op, f.body = .native op := by
    intro f hf
    simp only [Module.base, List.mem_cons, List.not_mem_nil, or_false] at hf
    rcases hf with rfl | rfl | rfl | rfl | rfl | rfl | rfl | rfl <;> exact ⟨_, rfl⟩
  exact hall f (List.mem_of_getElem? hf)

theorem Library.linked_initial : Library.initial.Linked := by
  intro handle f slots code hf hbody
  have hhome : handle.home = Module.base.id := by
    obtain ⟨m, hm, -⟩ := Option.bind_eq_some_iff.1 hf
    obtain ⟨hlt, -⟩ := Array.getElem?_eq_some_iff.1 hm
    exact congrArg ModuleId.mk (Nat.lt_one_iff.1 hlt)
  obtain ⟨op, hnative⟩ := Library.native_of_base (.refl _) hhome hf
  rw [hbody] at hnative
  cases hnative

section Lowered

variable {names : Names} {lib : Library} {deps : List Module} {root : Tree}
  {forms : List FunctionForm} {globals : List GlobalForm} {u : LoweredUnit}
  (h : Lowered lib deps root names forms globals u)
  (hdepends : u.module.deps = deps.map (·.id))

include h hdepends

/-- Code that is typed by what the unit's own module, its dependencies and the base library offer is
linked. -/
theorem Lowered.linked_of_takes {P : Interface} {params : List Ty} {result : Ty}
    {n : Nat} {c : Code}
      (hc : c.Takes (P.restrict (names.home :: Module.base.id :: names.deps.map (·.id)))
        names.home params
      result n) : c.Linked (lib.push u.module) u.module.id := by
  intro callee args hpart
  rw [h.id, ← h.home]
  -- the interface has no function but of these modules, so none other is called
  obtain ⟨sig, hsig⟩ := hc.offered hpart
  have hnear :
      (callee.handle names.home).home ∈ names.home :: Module.base.id :: names.deps.map (·.id) := by
    by_contra hfar
    exact absurd (hsig.symm.trans (if_neg hfar)) (Option.some_ne_none sig)
  rcases List.mem_cons.1 hnear with hown | hnear
  · exact .inl hown
  · refine .inr ((List.mem_cons.1 hnear).imp_right fun hdep => ⟨u.module, ?_, ?_⟩)
    · rw [h.home, ← h.id]
      exact h.find?
    · rwa [hdepends, ← h.deps_eq]

variable (hdeps : ∀ d ∈ deps, lib.find? d.id = some d) (hbase : Library.initial.Grows lib)
  (hΓ : lib.layouts.Grounded)

include hdeps hbase hΓ

/-- **The initialisers of a unit that is accepted are linked.** -/
theorem Lowered.initialisers_linked : ∀ init ∈ u.initialisers,
    init.code.Linked (lib.push u.module) u.module.id := by
  have hP := (h.knows (L := .full) hdeps hbase hΓ trivial).restrict
  intro init hinit
  obtain ⟨g, -, hlower⟩ := exists_of_forall₂ h.initialisers hinit
  exact h.linked_of_takes hdepends (hP.lowerGlobal hlower (.inl trivial))

/-- **A unit that is accepted leaves the library linked.** -/
theorem Library.Linked.push (hlib : lib.Linked) : (lib.push u.module).Linked := by
  intro handle f slots code hf hbody
  by_cases hnew : handle.home = u.module.id
  · obtain ⟨m, hm, hf⟩ := Option.bind_eq_some_iff.1 hf
    rw [hnew, h.find?] at hm
    cases hm
    have hP := (h.knows (L := .full) hdeps hbase hΓ trivial).restrict
    obtain ⟨form, -, hlower⟩ := exists_of_forall₂ h.functions (List.mem_of_getElem? hf)
    have htyped := hP.lowerFunction hlower (.inl trivial)
    unfold Function.Typed at htyped
    rw [hbody] at htyped
    rw [hnew]
    exact h.linked_of_takes hdepends htyped
  · have hold : lib.function? handle = some f := by
      rw [Library.function?, Source.find?_push_of_ne (h.id ▸ hnew)] at hf
      exact hf
    exact (hlib handle f slots code hold hbody).mono (Library.grows_push lib u.module)

end Lowered

end Kiln
