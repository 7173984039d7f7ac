import Kiln.Proofs.Typing.Watching
import Kiln.Proofs.Workspace.Calls
/-!
# The globals of a new module

The initialisers of a unit run one after the other, while the globals that are still to come hold
unit. Nothing keeps an initialiser, or a function that it calls, from reading one of those. So what
a global holds when the unit is compiled stands for the global's type, unit being found behind any
type; it is of that type if the initialisers are *in order*: each is typed by what is there before
its own global (`Reached.globals_initialised`). Initialisers in order read no global before it has
its value.
-/

namespace Kiln

open Value Work

/-- What is there of the interface before the global number `k` of the module `home` has its value,
of the functions no more than those that may be called. -/
def Interface.before (P : Interface) (home : ModuleId) (k : Nat)
    (callable : FunctionHandle → Bool) :
    Interface :=
  { P with
    global := fun other i => if other = home ∧ k ≤ i then none else P.global other i
    function := fun handle => if callable handle then P.function handle else none }

/-- Each initialiser is typed by what is there before its global has its value, and so is every
function that it may call. -/
def LoweredUnit.InOrder (u : LoweredUnit) (P : Interface) (lib : Library) : Prop :=
  ∀ k g init, u.module.globals[k]? = some g → u.initialisers[k]? = some init → ∃ callable,
    (P.before u.module.id k callable).Describes lib ∧
      init.code.Takes (P.before u.module.id k callable) u.module.id [] g.type init.slots

/-- The store without the globals of the module `home` from number `k` on. -/
def Store.without (s : Store) (home : ModuleId) (k : Nat) : Store :=
  { s with globals := s.globals.modify home.index (·.take k) }

/-- The initialiser does in a store without the globals of the module `home` from number `k` on what
it does in the whole one: it reads none of them. -/
def Initialiser.ReadsBefore (init : Initialiser) (lib : Library) (home : ModuleId)
    (k : Nat) : Prop :=
  ∀ s, evaluate lib home init.slots init.code (s.without home k) =
    match evaluate lib home init.slots init.code s with
    | .ok v s' => .ok v (s'.without home k)
    | .error e s' => .error e (s'.without home k)

namespace Store

variable {s : Store} {home other : ModuleId} {k i : Nat}

theorem global?_without (h : ¬(other = home ∧ k ≤ i)) :
    (s.without home k).global? other i = s.global? other i := by
  rw [without, global?, global?, Array.getElem?_modify]
  split
  · rename_i hindex
    have hhome : other = home := by cases home; cases other; exact congrArg ModuleId.mk hindex.symm
    rcases s.globals[other.index]? with _ | values
    · rfl
    · exact List.getElem?_take_of_lt (Nat.lt_of_not_le fun hle => h ⟨hhome, hle⟩)
  · rfl

theorem setGlobal_without (s : Store) (home other : ModuleId) (k i : Nat) (v : Value) :
    (s.without home k).setGlobal other i v = (s.setGlobal other i v).without home k := by
  have hglobals : (s.globals.modify home.index (·.take k)).modify other.index (·.set i v) =
      (s.globals.modify other.index (·.set i v)).modify home.index (·.take k) := by
    refine Array.ext_getElem? fun j => ?_
    simp only [Array.getElem?_modify]
    rcases s.globals[j]? with _ | values
    · split <;> split <;> rfl
    · split <;> split <;> simp [List.take_set]
  exact congrArg (fun globals => { s with globals }) hglobals

end Store

/-- What is there before a global has its value overlooks that global and those behind it. -/
theorem Interface.overlooks_before (P : Interface) (home : ModuleId) (k : Nat)
    (callable : FunctionHandle → Bool) :
    (P.before home k callable).Overlooks fun s s' => s = s'.without home k := by
  refine ⟨?_, ?_, ?_, ?_, ?_⟩
  · rintro _ s rfl
    rfl
  · rintro _ s heap rfl
    rfl
  · rintro _ s line rfl
    rfl
  · rintro _ s other i t rfl ht
    refine Store.global?_without fun h => ?_
    rw [before] at ht
    dsimp only at ht
    rw [if_pos h] at ht
    cases ht
  · rintro _ s other i t v rfl -
    exact s.setGlobal_without home other k i v

variable {w w' : Workspace} {L : Laxity} {P : Interface}

/-- An initialiser that is typed by what is there before a global reads neither that nor one behind
it. -/
theorem Initialiser.readsBefore {lib : Library} {home : ModuleId} {k : Nat}
    {callable : FunctionHandle → Bool} {init : Initialiser} {t : Ty}
    (hP : (P.before home k callable).Describes lib)
    (h : init.code.Takes (P.before home k callable) home [] t init.slots) :
    init.ReadsBefore lib home k := by
  intro s
  have hend := hP.evaluate_alike (P.overlooks_before home k callable) h _ s rfl
  generalize evaluate lib home init.slots init.code (s.without home k) = ex at hend ⊢
  generalize evaluate lib home init.slots init.code s = ey at hend ⊢
  cases hend with
  | value h hs => rw [h, hs]
  | stop hs => rw [hs]

/-- A global that gets a value of its type is there before the next one gets its own. -/
theorem Interface.Keeps.advance {home : ModuleId} {k : Nat}
    {callable : FunctionHandle → Bool} {s : Store} {t : Ty} {v w : Value}
    (h : (P.before home k callable).Keeps s) (ht : P.global home k = some t)
    (hw : s.global? home k = some w) (hv : StandsFor P.laxity P.layouts v t) :
    (P.before home (k + 1) callable).Keeps (s.setGlobal home k v) := by
  refine ⟨by rw [Store.setGlobal, Array.size_modify]; exact h.size, fun other j u hu => ?_⟩
  rw [before] at hu
  dsimp only at hu
  split at hu
  · cases hu
  · rename_i hnot
    by_cases hown : other = home ∧ j = k
    · obtain ⟨rfl, rfl⟩ := hown
      cases ht.symm.trans hu
      exact ⟨v, by rw [Store.global?_setGlobal hw, if_pos ⟨rfl, rfl⟩], hv⟩
    · have hbefore : (P.before home k callable).global other j = some u := by
        rw [before]
        dsimp only
        rwa [if_neg fun h => hnot ⟨h.1, Nat.lt_of_le_of_ne h.2 fun heq => hown ⟨h.1, heq.symm⟩⟩]
      obtain ⟨x, hx, hstands⟩ := h.value other j u hbefore
      exact ⟨x, by rw [Store.global?_setGlobal hx, if_neg hown], hstands⟩

/-- Which functions may be called says nothing of what the globals hold. -/
theorem Interface.keeps_before (P : Interface) (home : ModuleId) (k : Nat)
    (callable callable' : FunctionHandle → Bool) :
    (P.before home k callable).Keeps = (P.before home k callable').Keeps := by
  funext s
  exact propext ⟨fun h => ⟨h.size, h.value⟩, fun h => ⟨h.size, h.value⟩⟩

/-- All globals hold values that stand for their types as far as unit may be found behind any, and
those that come before the number `k` of the module `home` do so as far as the laxity says. -/
def Library.FilledTo (lib : Library) (L : Laxity) (home : ModuleId) (k : Nat) (s : Store) : Prop :=
  (lib.interface .full).Keeps s ∧ ((lib.interface L).before home k fun _ => false).Keeps s

/-- **Initialisers that are in order give every global a value of its type.** -/
theorem Workspace.Sound.initialise_inOrder (hw : w.Sound .full) {deps : List Module} {root : Tree}
    {names : Names} {forms : List FunctionForm} {globals : List GlobalForm} {u : LoweredUnit}
    (hl : Lowered w.library deps root names forms globals u)
    (hdeps : ∀ d ∈ deps, w.library.find? d.id = some d)
    (hkeeps : (w.library.interface L).Keeps w.store)
    (horder : u.InOrder ((w.library.push u.module).interface L) (w.library.push u.module))
    {origin : Origin}
    (hinit : (initialiseFrom u.module origin 0 u.initialisers).run (installed w u.module) =
      .ok (.ok ()) w') :
    ∀ (i : Nat) (g : Global), u.module.globals[i]? = some g → ∃ v,
      w'.store.global? u.module.id i = some v ∧
        StandsFor L (w.library.push u.module).layouts v g.type := by
  have hunset : Laxity.full.unset := trivial
  have htyped := hw.typed.push hl hdeps hw.base hw.grounded trivial (.inl hunset)
  have hinits := hl.initialisers_typed hdeps hw.base hw.grounded (L := .full) trivial (.inl hunset)
  have hstep : ∀ k init, u.initialisers[k]? = some init → ∃ Q : Value → Prop,
      Run.Ends ((w.library.push u.module).FilledTo L u.module.id (0 + k)) Q
        (evaluate (w.library.push u.module) u.module.id init.slots init.code) ∧
      ∀ s v, (w.library.push u.module).FilledTo L u.module.id (0 + k) s → Q v →
        (w.library.push u.module).FilledTo L u.module.id (0 + k + 1)
          (s.setGlobal u.module.id (0 + k) v) := by
    intro k init hk
    obtain ⟨g, hg, htakes⟩ := getElem?_of_forall₂ hinits.flip hk
    obtain ⟨callable, hdescribes, hordered⟩ := horder k g init hg hk
    have hends := hdescribes.evaluate hordered
    rw [Interface.keeps_before _ _ _ callable fun _ => false] at hends
    rw [Nat.zero_add]
    refine ⟨_, (htyped.describes.evaluate htakes).and hends, fun s v hs hv => ?_⟩
    obtain ⟨old, hold, -⟩ := hs.1.value _ _ _ (Library.global_interface hl.find? hg)
    exact ⟨hs.1.setGlobal (Library.global_interface hl.find? hg) hv.1,
      hs.2.advance (Library.global_interface hl.find? hg) hold hv.2⟩
  have hstart :
      (w.library.push u.module).FilledTo L u.module.id 0 (installed w u.module).store := by
    refine ⟨hw.keeps.install hunset, hkeeps.size_install, fun other i t ht => ?_⟩
    rw [Interface.before] at ht
    dsimp only at ht
    split at ht
    · cases ht
    · rename_i hother
      exact hkeeps.install_other (fun heq => hother ⟨heq.trans hl.id.symm, Nat.zero_le i⟩) ht
  have hinstalled : (installed w u.module).library = w.library.push u.module := rfl
  obtain ⟨k, ⟨-, hdone⟩, hlast⟩ := initialiseFrom_keeps hinstalled hstep hstart hinit
  intro i g hg
  refine hdone.value u.module.id i g.type ?_
  rw [Interface.before]
  dsimp only
  rw [if_neg fun hle => ?_]
  · exact Library.global_interface hl.find? hg
  · have hlt := (List.getElem?_eq_some_iff.1 hg).1
    rw [hinits.length_eq] at hlt
    have hle := hle.2
    rw [hlast rfl] at hle
    omega

/-- **The globals of a unit that compiles hold values that stand for their types.** If the
initialisers are in order, with no slot read unassigned, each global holds a value of its type,
unless branches need not agree and unit is found in the type; and no initialiser reads a global of
the unit before it has its value. -/
theorem Reached.globals_initialised (h : Reached w) {unit : SourceUnit}
    {deps : List Module} {m : Module} (hdeps : ∀ d ∈ deps, w.library.find? d.id = some d)
    (hrun : (Work.compile unit deps).run w = .ok (.ok m) w') :
    (∀ (i : Nat) (g : Global), m.globals[i]? = some g → ∃ v, w'.store.global? m.id i = some v ∧
        StandsFor .full w'.library.layouts v g.type) ∧
      ∀ (L : Laxity) (u : LoweredUnit) (origin : Origin), ¬L.unset →
        unit.lower w.library deps = .ok (u, origin) → (w.library.interface L).Keeps w.store →
          u.InOrder (w'.library.interface L) w'.library →
            (∀ (i : Nat) (g : Global), m.globals[i]? = some g →
              (L.mixed → g.type.Unitless w'.library.layouts) →
                ∃ v, w'.store.global? m.id i = some v ∧ Conforms w'.library.layouts v g.type) ∧
              ∀ (k : Nat) (init : Initialiser), u.initialisers[k]? = some init →
                init.ReadsBefore w'.library m.id k := by
  have hw := h.sound
  have hw' := (h.compile hdeps hrun).sound
  rcases compile_outcome hrun with ⟨_, hcases, -⟩ | ⟨u, origin, r', hlower, hlibrary, hinit, hr⟩
  · cases hcases
  obtain ⟨rfl, rfl⟩ : r' = .ok () ∧ m = u.module := by
    rcases hr with ⟨_, -, hcases⟩ | ⟨hr', hcases⟩
    · cases hcases
    · cases hcases
      exact ⟨hr', rfl⟩
  obtain ⟨f, -, hunit⟩ := lower_outcome hlower
  obtain ⟨names, forms, globals, hl⟩ := lowered_of_lowerUnit hunit
  have hfind : w'.library.find? u.module.id = some u.module := hlibrary ▸ hl.find?
  refine ⟨fun i g hg => hw'.keeps.value _ _ _ (Library.global_interface hfind hg), ?_⟩
  intro L u' origin' hset hlower' hkeeps horder
  cases hlower.symm.trans hlower'
  rw [hlibrary] at horder ⊢
  refine ⟨fun i g hg hunitless => ?_, fun k init hk => ?_⟩
  · obtain ⟨v, hv, hstands⟩ := hw.initialise_inOrder hl hdeps hkeeps horder hinit i g hg
    exact ⟨v, hv, hstands.conforms_of hset hunitless⟩
  · have hinits :=
      hl.initialisers_typed hdeps hw.base hw.grounded (L := .full) trivial (.inl trivial)
    obtain ⟨g, hg, -⟩ := getElem?_of_forall₂ hinits.flip hk
    obtain ⟨callable, hdescribes, htakes⟩ := horder k g init hg hk
    exact Initialiser.readsBefore hdescribes htakes

/-- `(global a i64 1) (global b i64 (+ a 1))` -/
def pairUnit : Tree :=
  .list [.word "do",
    .list [.word "global", .word "a", .word "i64", .number 1],
    .list [.word "global", .word "b", .word "i64", .list [.word "+", .word "a", .number 1]]]

/-- A number, and a number that is added to the global before, are in order. -/
theorem LoweredUnit.inOrder_pair {u : LoweredUnit} {P : Interface} {lib : Library} {a b : String}
    {n k : Int64} {slots slots' : Nat} {span span' : Span} (hΓ : P.layouts = lib.layouts)
    (hglobals : u.module.globals = [⟨a, .i64⟩, ⟨b, .i64⟩])
    (hfirst : P.global u.module.id 0 = some .i64)
      (hinits : u.initialisers = [⟨slots, .const (.int n), span⟩,
        ⟨slots', .binary .add (.getGlobal 0) (.const (.int k)), span'⟩]) : u.InOrder P lib := by
  have hnone : ∀ k, (P.before u.module.id k fun _ => false).Describes lib := fun k =>
    ⟨hΓ, fun handle params result h => by cases h⟩
  have hstart : ∀ Q : Interface, Assigned.AtStart Q.laxity 0 ∅ := fun Q => .inr fun i hi => hi.elim
  intro j g init hg hinit
  rw [hglobals] at hg
  rw [hinits] at hinit
  match j with
  | 0 =>
    cases hg
    cases hinit
    exact ⟨_, hnone 0, .replicate slots .unit, ∅, .i64, ∅, List.length_replicate, List.nil_prefix,
      hstart _, .const trivial, rfl⟩
  | 1 =>
    cases hg
    cases hinit
    have hvisible : (P.before u.module.id 1 fun _ => false).global u.module.id 0 = some .i64 := by
      rw [Interface.before]
      dsimp only
      rwa [if_neg fun h => absurd h.2 (by decide)]
    exact ⟨_, hnone 1, .replicate slots' .unit, ∅, .i64, ∅, List.length_replicate, List.nil_prefix,
      hstart _, .binary (.getGlobal hvisible) (.const (t := .i64) trivial) rfl, rfl⟩
  | j + 2 => cases hg

/-- The first initialiser is a number, and the second adds a number to the first global. -/
def addsToFirst : List Initialiser → Bool
  | [⟨_, .const (.int _), _⟩, ⟨_, .binary .add (.getGlobal 0) (.const (.int _)), _⟩] => true
  | _ => false

/-- The unit was lowered to the module, with such initialisers. -/
def lowersTo (m : Module) : Except CompileError (LoweredUnit × Origin) → Bool
  | .ok (u, _) => u.module.id == m.id && u.module.globals == m.globals && addsToFirst u.initialisers
  | .error _ => false

theorem Reached.globals_initialised_pair : ∃ m w v, Workspace.afterUnit? pairUnit = some (m, w) ∧
    w.store.global? m.id 1 = some v ∧ Conforms w.library.layouts v .i64 := by
  obtain ⟨m, w, hafter, hcheck⟩ := Workspace.exists_afterUnit pairUnit
    (fun m w =>
      m.globals == [⟨"a", .i64⟩, ⟨"b", .i64⟩] &&
        (w.library.find? m.id).any (·.globals == m.globals) &&
      lowersTo m ((SourceUnit.fragment "small" ⟨pairUnit, ⟨"small", ""⟩⟩).lower Library.initial []))
    (by decide)
  rw [Bool.and_eq_true, Bool.and_eq_true, beq_iff_eq] at hcheck
  obtain ⟨⟨hglobals, hfind⟩, hlower⟩ := hcheck
  unfold lowersTo at hlower
  split at hlower
  · rename_i u origin hunit
    rw [Bool.and_eq_true, Bool.and_eq_true, beq_iff_eq, beq_iff_eq] at hlower
    obtain ⟨⟨hid, hsame⟩, hinits⟩ := hlower
    unfold addsToFirst at hinits
    split at hinits
    · rename_i hinitialisers
      obtain ⟨d, hd, hdglobals⟩ := (Option.any_eq_true _ _).1 hfind
      have hfirst : (w.library.interface .strict).global u.module.id 0 = some .i64 := by
        refine Option.bind_eq_some_iff.2 ⟨d, hid ▸ hd, ?_⟩
        rw [beq_iff_eq.1 hdglobals, hglobals]
        rfl
      obtain ⟨hconforms, -⟩ := (Reached.globals_initialised (.initial 4096 (.empty "/"))
        (fun d hd => by cases hd) (Workspace.afterUnit?_eq_some hafter)).2 .strict u origin id hunit
          (Workspace.sound_initial 4096 (.empty "/") .strict).keeps
          (LoweredUnit.inOrder_pair rfl (hsame.trans hglobals) hfirst hinitialisers)
      obtain ⟨v, hv, hof⟩ := hconforms 1 ⟨"b", .i64⟩ (by rw [hglobals]; rfl) False.elim
      exact ⟨m, w, v, hafter, hv, hof⟩
    · cases hinits
  · cases hlower

/-- `(global a i64 b) (global b i64 1)` -/
def earlyUnit : Tree :=
  .list [.word "do",
    .list [.word "global", .word "a", .word "i64", .word "b"],
    .list [.word "global", .word "b", .word "i64", .number 1]]

/-- The place holds unit. -/
def holdsUnit : Option Value → Bool
  | some .unit => true
  | _ => false

/-- **A global may be read before it has its value**: the first global of the unit, which is
declared to be a number, is given the unit that is found behind the second. -/
theorem Reached.global_read_early :
    ∃ m w, Workspace.afterUnit? earlyUnit = some (m, w) ∧ Reached w ∧
    m.globals = [⟨"a", .i64⟩, ⟨"b", .i64⟩] ∧ w.store.global? m.id 0 = some .unit ∧
      ¬Conforms w.library.layouts .unit .i64 := by
  obtain ⟨m, w, hafter, hcheck⟩ := Workspace.exists_afterUnit earlyUnit
    (fun m w => m.globals == [⟨"a", .i64⟩, ⟨"b", .i64⟩] && holdsUnit (w.store.global? m.id 0))
    (by decide)
  obtain ⟨hglobals, hfirst⟩ := Bool.and_eq_true_iff.1 hcheck
  unfold holdsUnit at hfirst
  split at hfirst
  · rename_i hunit
    exact ⟨m, w, hafter, .afterUnit hafter, beq_iff_eq.1 hglobals, hunit, id⟩
  · cases hfirst

end Kiln
