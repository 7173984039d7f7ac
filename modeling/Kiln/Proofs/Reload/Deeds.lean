import Kiln.Reload.Reloader
/-!
# Deeds of the reload loop

What the loop does to versions of the hot module, as a list with the latest deed first: versions are
compiled, installed and removed, their functions are called, and frames and shutdowns have a
beginning and an end. `Orderly` says which lists are as they should be: each deed is allowed after
those before it (`Allowed`). Whatever is asked of whole runs follows from that by induction on the
list. `Added` says what a list is longer by, for as long as no frame begins or ends.
-/

namespace Kiln

/-- The function that an entry point of this name is bound to: the one of the name, if it takes no
arguments. -/
def Module.entryPoint? (m : Module) (name : String) : Option FunctionHandle :=
  (m.functions.find? (·.name = name)).bind
    fun f => if f.params.isEmpty then m.handle? name else none

theorem Module.home_of_entryPoint? {m : Module} {name : String} {handle : FunctionHandle}
    (h : m.entryPoint? name = some handle) : handle.home = m.id := by
  obtain ⟨f, -, h⟩ := Option.bind_eq_some_iff.1 h
  split at h
  · obtain ⟨i, -, rfl⟩ := Option.map_eq_some_iff.1 h
    rfl
  · cases h

namespace Reload

/-- Something that the loop does. -/
inductive Deed where
  /-- A frame begins, with so many notifications that were not looked at. -/
  | frameBegins (pending : Nat)
  | frameEnds
  | shutdownBegins
  | shutdownEnds
  /-- The file was compiled, to a version or in vain. -/
  | attempt (fresh : Option Module)
  /-- The function that the entry point of this name is bound to is called. -/
  | calls (entry : String) (handle : FunctionHandle)
  /-- The call has failed. -/
  | fails (entry : String) (handle : FunctionHandle)
  | removed (version : Module)
  | installed (version : Module)
  /-- A reload is over, and it has put a version in place or not. -/
  | reloaded (swapped : Bool)

namespace Deed

/-- A frame begins or ends. -/
def isMark : Deed → Bool
  | frameBegins _ | frameEnds => true
  | _ => false

def isAttempt : Deed → Bool
  | attempt _ => true
  | _ => false

/-- A reload that has put a version in place is over. -/
def isSwap : Deed → Bool
  | reloaded swapped => swapped
  | _ => false

/-- A deed that neither makes nor removes a version. -/
def isSilent : Deed → Bool
  | installed _ | removed _ | attempt (some _) => false
  | _ => true

/-- The entry point of this name is called, bound to this function. -/
def isCall (entry : String) (handle : FunctionHandle) : Deed → Bool
  | calls e h => e = entry && h = handle
  | _ => false

end Deed

theorem Deed.isCall_iff {d : Deed} {entry : String} {handle : FunctionHandle} :
    d.isCall entry handle = true ↔ d = .calls entry handle := by
  constructor
  · intro h
    unfold isCall at h
    split at h
    · rw [Bool.and_eq_true, decide_eq_true_eq, decide_eq_true_eq] at h
      rw [h.1, h.2]
    · cases h
  · rintro rfl
    simp [isCall]

theorem mem_cons_of_ne {past : List Deed} {d e : Deed} (hne : d ≠ e) :
    d ∈ e :: past ↔ d ∈ past := by
  rw [List.mem_cons, or_iff_right hne]

theorem mem_of_silent {ds past : List Deed} {d : Deed} (hds : ∀ e ∈ ds, e.isSilent = true)
    (hd : d.isSilent = false) : d ∈ ds ++ past ↔ d ∈ past := by
  refine ⟨fun h => ?_, List.mem_append_right ds⟩
  rcases List.mem_append.1 h with h | h
  · rw [hds d h] at hd
    cases hd
  · exact h

/-! ## Deeds in order -/

/-- The version was installed, and not removed since. -/
def Live (past : List Deed) (v : Module) : Prop := .installed v ∈ past ∧ .removed v ∉ past

/-- Every version that was compiled has been installed. -/
def Settled (past : List Deed) : Prop := ∀ v, .attempt (some v) ∈ past → .installed v ∈ past

/-- The deeds since a frame began or ended. -/
def sinceMark (past : List Deed) : List Deed := past.takeWhile (!·.isMark)

/-- The latest beginning or end of a frame. -/
def mark? (past : List Deed) : Option Deed := past.find? (·.isMark)

/-- The version has not been told to end. -/
def Unended (past : List Deed) (v : Module) : Prop :=
  ∀ t, v.entryPoint? "terminate" = some t → .calls "terminate" t ∉ past

/-- When another version was just compiled, or at shutdown, a version may be told to end. -/
def MayEnd (past : List Deed) : Prop :=
  past.head? = some .shutdownBegins ∨ ∃ fresh, past.head? = some (.attempt (some fresh))

/-- What may be done after these deeds. -/
def Allowed (past : List Deed) : Deed → Prop
  -- nothing begins before a version that was compiled is installed
  | .frameBegins _ | .shutdownBegins | .attempt _ => Settled past
  -- a frame that found notifications has made one attempt, another has made none
  | .frameEnds => Settled past ∧
      ∃ n, mark? past = some (.frameBegins n) ∧ (sinceMark past).countP (·.isAttempt) = min n 1
  | .shutdownEnds => ∀ v, .installed v ∈ past → .removed v ∈ past
  | .calls entry handle => ∃ v, Live past v ∧ v.entryPoint? entry = some handle ∧ Unended past v ∧
      -- `update` in a frame, once and as long as it did not fail
      ((entry = "update" ∧ (∃ n, mark? past = some (.frameBegins n)) ∧
        .fails "update" handle ∉ past ∧
          ∀ h, .calls "update" h ∉ sinceMark past) ∨
        (entry = "terminate" ∧ MayEnd past))
  | .fails entry handle => past.head? = some (.calls entry handle)
  | .removed v =>
    Live past v ∧ ∀ t, v.entryPoint? "terminate" = some t → .calls "terminate" t ∈ past
  | .installed v => .attempt (some v) ∈ past ∧
      ∀ u, .installed u ∈ past → u.id ≠ v.id ∧ .removed u ∈ past
  | .reloaded true => ∃ v, past.head? = some (.installed v)
  | .reloaded false => past.head? = some (.attempt none)

/-- Every deed was allowed when it was done. -/
def Orderly : List Deed → Prop
  | [] => True
  | d :: past => Allowed past d ∧ Orderly past

variable {log past : List Deed}

/-- A deed was done after some others, which were in order. -/
theorem Orderly.allowed {d : Deed} {later : List Deed} (h : Orderly (later ++ d :: past)) :
    Allowed past d ∧ Orderly past := by
  induction later with
  | nil => exact h
  | cons e later ih => exact ih h.2

/-- Only functions of installed versions are called. -/
theorem Orderly.installed_of_calls (h : Orderly log) {entry : String} {handle : FunctionHandle}
    (hcalls : .calls entry handle ∈ log) : ∃ v, .installed v ∈ log ∧ handle.home = v.id := by
  obtain ⟨later, past, rfl⟩ := List.append_of_mem hcalls
  obtain ⟨⟨v, hlive, hentry, -⟩, -⟩ := h.allowed
  refine ⟨v, ?_, Module.home_of_entryPoint? hentry⟩
  exact List.mem_append_right _ (List.mem_cons_of_mem _ hlive.1)

/-- Only what was called can fail. -/
theorem Orderly.calls_of_fails (h : Orderly log) {entry : String} {handle : FunctionHandle}
    (hfails : .fails entry handle ∈ log) : .calls entry handle ∈ log := by
  obtain ⟨later, past, rfl⟩ := List.append_of_mem hfails
  obtain ⟨hhead, -⟩ := h.allowed
  exact List.mem_append_right _ (List.mem_cons_of_mem _ (List.mem_of_mem_head? hhead))

/-- Only what was installed is removed. -/
theorem Orderly.installed_of_removed (h : Orderly log) {v : Module} (hremoved : .removed v ∈ log) :
    .installed v ∈ log := by
  obtain ⟨later, past, rfl⟩ := List.append_of_mem hremoved
  obtain ⟨⟨hlive, -⟩, -⟩ := h.allowed
  exact List.mem_append_right _ (List.mem_cons_of_mem _ hlive.1)

/-- What is told to end is not told so again. -/
theorem Orderly.terminate_le (h : Orderly log) (t : FunctionHandle) :
    log.countP (·.isCall "terminate" t) ≤ 1 := by
  induction log with
  | nil => exact Nat.zero_le 1
  | cons d past ih =>
    by_cases hd : d = .calls "terminate" t
    · subst hd
      obtain ⟨⟨v, -, hentry, hunended, -⟩, -⟩ := h
      have hnone : past.countP (·.isCall "terminate" t) = 0 := by
        refine List.countP_eq_zero.2 fun d hd hcall => ?_
        rw [Deed.isCall_iff.1 hcall] at hd
        exact hunended t hentry hd
      rw [List.countP_cons, hnone]
      simp [Deed.isCall]
    · have hno : ¬d.isCall "terminate" t = true := fun hcall => hd (Deed.isCall_iff.1 hcall)
      rw [List.countP_cons_of_neg hno]
      exact ih h.2

/-- **A version is told to end exactly once** when it is removed, and never more often. -/
theorem Orderly.terminate_once (h : Orderly log) {v : Module} {t : FunctionHandle}
    (ht : v.entryPoint? "terminate" = some t) (hremoved : .removed v ∈ log) :
    log.countP (·.isCall "terminate" t) = 1 := by
  have hcalls : .calls "terminate" t ∈ log := by
    obtain ⟨later, past, rfl⟩ := List.append_of_mem hremoved
    obtain ⟨⟨-, hended⟩, -⟩ := h.allowed
    exact List.mem_append_right _ (List.mem_cons_of_mem _ (hended t ht))
  have hpos : 0 < log.countP (·.isCall "terminate" t) :=
    List.countP_pos_iff.2 ⟨_, hcalls, Deed.isCall_iff.2 rfl⟩
  have hle := h.terminate_le t
  omega

/-- Versions have different numbers. -/
theorem Orderly.eq_of_id (h : Orderly log) {u v : Module} (hu : .installed u ∈ log)
    (hv : .installed v ∈ log) (hid : u.id = v.id) : u = v := by
  induction log with
  | nil => cases hu
  | cons d past ih =>
    rcases List.mem_cons.1 hu with rfl | hu'
    · rcases List.mem_cons.1 hv with heq | hv'
      · exact (Deed.installed.inj heq).symm
      · exact absurd hid.symm (h.1.2 v hv').1
    · rcases List.mem_cons.1 hv with rfl | hv'
      · exact absurd hid (h.1.2 u hu').1
      · exact ih h.2 hu' hv'

/-- **No function of a version is called after its end.** -/
theorem Orderly.silent_after_terminate {later : List Deed} {t : FunctionHandle}
    (h : Orderly (later ++ .calls "terminate" t :: past)) {entry : String} {handle : FunctionHandle}
    (hcalls : .calls entry handle ∈ later) : handle.home ≠ t.home := by
  obtain ⟨later, between, rfl⟩ := List.append_of_mem hcalls
  rw [List.append_assoc, List.cons_append] at h
  obtain ⟨⟨u, hlive, hentry, hunended, -⟩, hbetween⟩ := h.allowed
  obtain ⟨⟨v, hlive', hterminate, -⟩, -⟩ := hbetween.allowed
  intro hhome
  rw [Module.home_of_entryPoint? hentry, Module.home_of_entryPoint? hterminate] at hhome
  have hinstalled : .installed v ∈ between ++ .calls "terminate" t :: past :=
    List.mem_append_right _ (List.mem_cons_of_mem _ hlive'.1)
  -- the version that is called would be the one that was told to end
  obtain rfl := hbetween.eq_of_id hlive.1 hinstalled hhome
  exact hunended t hterminate (List.mem_append_right _ List.mem_cons_self)

/-! ## What was added to the deeds -/

/-- Deeds that were added within a frame or a shutdown, with so many attempts and so many swaps;
`update` was not called. -/
inductive Added (past : List Deed) : Nat → Nat → List Deed → Prop
  | none : Added past 0 0 past
  | attempt {a i : Nat} {now : List Deed} (fresh : Option Module) : Added past a i now →
      Added past (a + 1) i (.attempt fresh :: now)
  | calls {a i : Nat} {now : List Deed} (t : FunctionHandle) : Added past a i now →
      Added past a i (.calls "terminate" t :: now)
  | fails {a i : Nat} {now : List Deed} (entry : String) (t : FunctionHandle) : Added past a i now →
      Added past a i (.fails entry t :: now)
  | removed {a i : Nat} {now : List Deed} (v : Module) : Added past a i now →
      Added past a i (.removed v :: now)
  | installed {a i : Nat} {now : List Deed} (v : Module) : Added past a i now →
      Added past a i (.installed v :: now)
  | reloaded {a i : Nat} {now : List Deed} (swapped : Bool) : Added past a i now →
      Added past a (i + swapped.toNat) (.reloaded swapped :: now)

namespace Added

variable {past now later : List Deed} {a b i j : Nat}

theorem trans (h : Added past a i now) (h' : Added now b j later) :
    Added past (a + b) (i + j) later := by
  induction h' with
  | none => exact h
  | attempt fresh _ ih => exact ih.attempt fresh
  | calls t _ ih => exact ih.calls t
  | fails entry t _ ih => exact ih.fails entry t
  | removed v _ ih => exact ih.removed v
  | installed v _ ih => exact ih.installed v
  | @reloaded _ j _ swapped _ ih => exact Nat.add_assoc i j swapped.toNat ▸ ih.reloaded swapped

theorem mark?_eq (h : Added past a i now) : mark? now = mark? past := by
  induction h with
  | none => rfl
  | attempt _ _ ih | calls _ _ ih | fails _ _ _ ih | removed _ _ ih | installed _ _ ih
      | reloaded _ _ ih =>
    exact ih

theorem attempts_eq (h : Added past a i now) :
    (sinceMark now).countP (·.isAttempt) = (sinceMark past).countP (·.isAttempt) + a := by
  induction h with
  | none => rfl
  | attempt fresh _ ih =>
    have hcons :
        ∀ now, sinceMark (.attempt fresh :: now) = .attempt fresh :: sinceMark now := fun _ => rfl
    rw [hcons, List.countP_cons_of_pos rfl, ih, Nat.add_assoc]
  | calls _ _ ih | fails _ _ _ ih | removed _ _ ih | installed _ _ ih | reloaded _ _ ih => exact ih

theorem swaps_eq (h : Added past a i now) :
    now.countP (·.isSwap) = past.countP (·.isSwap) + i := by
  induction h with
  | none => rfl
  | reloaded swapped _ ih =>
    cases swapped with
    | true => rw [List.countP_cons_of_pos rfl, ih, Bool.toNat_true, Nat.add_assoc]
    | false => exact ih
  | attempt _ _ ih | calls _ _ ih | fails _ _ _ ih | removed _ _ ih | installed _ _ ih => exact ih

theorem not_update (h : Added past a i now) {handle : FunctionHandle}
    (hpast : .calls "update" handle ∉ sinceMark past) : .calls "update" handle ∉ sinceMark now := by
  induction h with
  | none => exact hpast
  | calls t _ ih =>
    intro hmem
    rcases List.mem_cons.1 hmem with heq | hmem
    · exact absurd (Deed.calls.inj heq).1 (by decide)
    · exact ih hmem
  | attempt _ _ ih | fails _ _ _ ih | removed _ _ ih | installed _ _ ih | reloaded _ _ ih =>
    intro hmem
    rcases List.mem_cons.1 hmem with heq | hmem
    · cases heq
    · exact ih hmem

end Added

end Reload

end Kiln
