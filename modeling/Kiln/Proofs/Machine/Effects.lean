import Kiln.Machine.Eval
import Kiln.Proofs.Typing.Judgement
/-!
# What code may do to the store

Code changes the store in two ways only: it writes to memory, or takes and gives it back, and it
assigns globals of the module it is of. Whether code may do so shows in the code itself, as long as
it is known which functions it calls (`Code.within`). Code whose effects are allowed leaves
everything else as it was: `Run.Preserves I x` says that a run preserves a property of the store
however it ends, and `eval_preserves` that code does whose effects all preserve it.
-/

namespace Kiln

/-- A way to change the store, other than to print. -/
inductive Effect where
  /-- Writes to memory, takes a block or gives it back. -/
  | memory
  /-- Assigns a global of the module. -/
  | assign (home : ModuleId)
  deriving DecidableEq, Repr

/-! ## Effects of code -/

section Within

variable (may : Effect → Bool) (callable : FunctionHandle → Bool) (home : ModuleId)

mutual

/-- The code, of the module `home`, has none but the effects allowed and calls none but some
functions. -/
def Code.within : Code → Bool
  | .const _ | .getLocal _ | .getGlobal _ | .foreignGlobal _ _ => true
  | .setLocal _ c | .not c | .fieldPtr c _ _ | .fieldGet c _ | .load c _ | .cast c _ | .addr c
  | .seqLen c => c.within
  | .setGlobal _ c => may (.assign home) && c.within
  | .block cs | .make _ cs | .seqLit _ cs => Code.allWithin cs
  | .branch c yes (some no) => c.within && yes.within && no.within
  | .branch c yes none => c.within && yes.within
  | .loop c d | .binary _ c d | .and c d | .or c d | .offset c d _ => c.within && d.within
  | .call callee args => callable (callee.handle home) && Code.allWithin args
  | .store c d _ | .seqCopy c d => may .memory && c.within && d.within

/-- All of the code is so. -/
def Code.allWithin : List Code → Bool
  | [] => true
  | c :: cs => c.within && Code.allWithin cs

end

end Within

/-- Whether a function of the host changes memory. -/
def Native.usesMemory : Native → Bool
  | .malloc | .free | .memcpy | .memset => true
  | .panic | .print | .printInt | .sleepMs => false

/-- The function, of the module `home`, has none but the effects allowed and calls none but some. -/
def Function.within (may : Effect → Bool) (callable : FunctionHandle → Bool) (home : ModuleId)
    (f : Function) : Bool :=
  match f.body with
  | .code _ c => c.within may callable home
  | .native op => may .memory || !op.usesMemory

/-- Functions that have none but the effects allowed, and call none but each other. -/
def Library.Confines (lib : Library) (may : Effect → Bool)
    (callable : FunctionHandle → Bool) : Prop :=
  ∀ handle f, callable handle = true → lib.function? handle = some f →
    f.within may callable handle.home = true

/-! ## Runs that preserve a property of the store -/

namespace Run

variable {α β : Type} {I : Store → Prop}

/-- However the run ends, the store keeps the property. -/
def Preserves (I : Store → Prop) (x : Run α) : Prop :=
  ∀ s, I s → match x s with
    | .ok _ s' => I s'
    | .error _ s' => I s'

namespace Preserves

theorem pure (a : α) : Preserves I (pure a : Run α) := fun _ hs => hs

theorem throw (e : Stop) : Preserves I (throw e : Run α) := fun _ hs => hs

theorem lift (x : Except Fault α) : Preserves I (Run.lift x) := by
  rcases x with f | a
  · exact throw _
  · exact pure a

/-- **Runs that preserve a property follow each other.** -/
theorem bind {x : Run α} {k : α → Run β} (hx : Preserves I x) (hk : ∀ a, Preserves I (k a)) :
    Preserves I (x >>= k) := by
  intro s hs
  have hstep := hx s hs
  show (match EStateM.bind x k s with
    | .ok _ s' => I s'
    | .error _ s' => I s')
  unfold EStateM.bind
  rcases hxs : x s with ⟨a, s'⟩ | ⟨e, s'⟩
  · rw [hxs] at hstep
    exact hk a s' hstep
  · rw [hxs] at hstep
    exact hstep

theorem modify {change : Store → Store} (h : ∀ s, I s → I (change s)) :
    Preserves I (modify change : Run PUnit) := fun s hs => h s hs

/-- A step that reads the store. -/
theorem get {k : Store → Run β} (hk : ∀ s, I s → Preserves I (k s)) : Preserves I (get >>= k) :=
  fun s hs => hk s hs s hs

/-- A step that needs something to be there. -/
theorem present {x : Option α} {k : α → Run β} (hk : ∀ a, x = some a → Preserves I (k a)) :
    Preserves I (Run.present x >>= k) := by
  rcases x with _ | a
  · exact fun s hs => hs
  · exact hk a rfl

theorem updateHeap {change : Heap → Except Fault Heap} (h : ∀ s heap, I s → I { s with heap }) :
    Preserves I (Run.updateHeap change) := by
  refine .get fun s hs => ?_
  exact (lift (change s.heap)).bind fun heap s' _ => h s heap hs

theorem allocate (h : ∀ s heap, I s → I { s with heap }) (size : UInt64) :
    Preserves I (Kiln.allocate size) := by
  refine .get fun s hs => ?_
  rcases s.heap.alloc size with e | ⟨addr, heap⟩
  · exact .throw _
  · exact fun s' _ => h s heap hs

end Preserves

end Run

/-- Printing preserves the property, and so does whatever the effects allowed can do. -/
structure Effect.Preserve (may : Effect → Bool) (I : Store → Prop) : Prop where
  print : ∀ s line, I s → I (s.print line)
  memory : may .memory = true → ∀ s heap, I s → I { s with heap }
  assign : ∀ home, may (.assign home) = true → ∀ s i v, I s → I (s.setGlobal home i v)

variable {may : Effect → Bool} {callable : FunctionHandle → Bool} {I : Store → Prop}
  (hI : Effect.Preserve may I)

include hI

/-! ## Functions of the host -/

theorem Native.run_preserves {op : Native} (hop : (may .memory || !op.usesMemory) = true)
    (args : List Value) :
    Run.Preserves I (op.run args) := by
  have hmemory : op.usesMemory = true → ∀ s heap, I s → I { s with heap } := by
    intro huses
    rw [huses, Bool.not_true, Bool.or_false] at hop
    exact hI.memory hop
  unfold Native.run
  split
  · refine (Run.Preserves.lift _).bind fun n => ?_
    exact (Run.Preserves.allocate (hmemory rfl) _).bind fun _ => .pure _
  · refine (Run.Preserves.lift _).bind fun addr => ?_
    exact (Run.Preserves.updateHeap (hmemory rfl)).bind fun _ => .pure _
  · refine (Run.Preserves.lift _).bind fun d => (Run.Preserves.lift _).bind fun s => ?_
    refine (Run.Preserves.lift _).bind fun n => ?_
    exact (Run.Preserves.updateHeap (hmemory rfl)).bind fun _ => .pure _
  · refine (Run.Preserves.lift _).bind fun d => (Run.Preserves.lift _).bind fun b => ?_
    refine (Run.Preserves.lift _).bind fun n => ?_
    exact (Run.Preserves.updateHeap (hmemory rfl)).bind fun _ => .pure _
  · exact (Run.Preserves.lift _).bind fun text => .throw _
  · refine (Run.Preserves.lift _).bind fun text => ?_
    exact (Run.Preserves.modify fun s => hI.print s text).bind fun _ => .pure _
  · refine (Run.Preserves.lift _).bind fun n => ?_
    exact (Run.Preserves.modify fun s => hI.print s _).bind fun _ => .pure _
  · have hdiscard :
        ∀ millis : Value, Run.Preserves I (discard (Run.lift millis.asInt)) := fun millis =>
      (Run.Preserves.lift _).bind fun _ => .pure _
    exact (hdiscard _).bind fun _ => .pure _
  · exact .throw _

/-! ## Parts of code -/

omit hI in
/-- The evaluator preserves the property, run on code that has none but the effects allowed. -/
def Evaluator.Preserves (may : Effect → Bool) (callable : FunctionHandle → Bool) (I : Store → Prop)
    (home : ModuleId) (ev : Evaluator) : Prop :=
  ∀ c fr, c.within may callable home = true → Run.Preserves I (ev c fr)

namespace Evaluator.Preserves

variable {home : ModuleId} {ev : Evaluator} (hev : ev.Preserves may callable I home)

omit hI

include hev

theorem evalAll : ∀ (cs : List Code) (fr : Frame), Code.allWithin may callable home cs = true →
    Run.Preserves I (Kiln.evalAll ev cs fr)
  | [], _, _ => .pure _
  | c :: cs, fr, h => by
    rw [Code.allWithin, Bool.and_eq_true] at h
    refine (hev c fr h.1).bind fun _ => ?_
    exact (evalAll cs _ h.2).bind fun _ => .pure _

theorem evalBlock : ∀ (cs : List Code) (last : Value) (fr : Frame),
    Code.allWithin may callable home cs = true → Run.Preserves I (Kiln.evalBlock ev last cs fr)
  | [], _, _, _ => .pure _
  | c :: cs, _, fr, h => by
    rw [Code.allWithin, Bool.and_eq_true] at h
    exact (hev c fr h.1).bind fun _ => evalBlock cs _ _ h.2

theorem evalTest {c : Code} (h : c.within may callable home = true) (fr : Frame) :
    Run.Preserves I (Kiln.evalTest ev c fr) := by
  refine (hev c fr h).bind fun _ => ?_
  exact (Run.Preserves.lift _).bind fun _ => .pure _

theorem evalLoop {c body : Code} (h : c.within may callable home = true)
    (hbody : body.within may callable home = true) : ∀ (n : Nat) (fr : Frame),
    Run.Preserves I (Kiln.evalLoop ev c body n fr)
  | 0, _ => .throw _
  | n + 1, fr => by
    refine (hev.evalTest h fr).bind fun ⟨go, fr⟩ => ?_
    cases go with
    | false => exact .pure _
    | true => exact (hev body fr hbody).bind fun _ => evalLoop h hbody n _

end Evaluator.Preserves

/-! ## Code and functions -/

variable {lib : Library} (hconfines : lib.Confines may callable)

include hconfines

theorem invoke_preserves {run : ModuleId → Evaluator}
    (hrun : ∀ home, (run home).Preserves may callable I home)
    {handle : FunctionHandle} (hcallable : callable handle = true) (args : List Value) :
    Run.Preserves I (invoke lib run handle args) := by
  refine .present fun f hfind => ?_
  have hwithin : f.within may callable handle.home = true := hconfines handle f hcallable hfind
  split
  · exact .throw _
  · unfold Function.within at hwithin
    split
    · rename_i op hbody
      rw [hbody] at hwithin
      exact op.run_preserves hI hwithin args
    · rename_i slots code hbody
      rw [hbody] at hwithin
      exact (hrun _ code _ hwithin).bind fun _ => .pure _

/-- **Code leaves alone what its effects leave alone**, at any depth. -/
theorem eval_preserves : ∀ (depth : Nat) (home : ModuleId),
    (eval lib depth home).Preserves may callable I home
  | 0, _ => fun _ _ _ => .throw _
  | depth + 1, home => by
    -- the depth goes down with each subterm and each call, so neither needs an induction of its own
    have hrun : ∀ home, (eval lib depth home).Preserves may callable I home := eval_preserves depth
    have hev := hrun home
    intro code fr h
    unfold eval
    cases code with
    | const v => exact .pure _
    | getLocal slot => exact .present fun _ _ => .pure _
    | setLocal slot value =>
      rw [Code.within] at h
      refine (hev value fr h).bind fun ⟨v, fr⟩ => ?_
      dsimp only
      split
      · exact .pure _
      · exact .throw _
    | getGlobal index => exact .get fun _ _ => .present fun _ _ => .pure _
    -- globals are assigned by their own module only, which is where the code runs
    | setGlobal index value =>
      rw [Code.within, Bool.and_eq_true] at h
      refine (hev value fr h.2).bind fun ⟨v, fr⟩ => ?_
      exact (Run.Preserves.modify fun s hs => hI.assign home h.1 s index v hs).bind fun _ => .pure _
    | foreignGlobal other index => exact .get fun _ _ => .present fun _ _ => .pure _
    | block items =>
      rw [Code.within] at h
      exact hev.evalBlock items _ fr h
    | branch cond onTrue onFalse =>
      cases onFalse with
      | none =>
        rw [Code.within, Bool.and_eq_true] at h
        refine (hev.evalTest h.1 fr).bind fun ⟨go, fr⟩ => ?_
        cases go with
        | true => exact hev onTrue fr h.2
        | false => exact .pure _
      | some other =>
        rw [Code.within, Bool.and_eq_true, Bool.and_eq_true] at h
        refine (hev.evalTest h.1.1 fr).bind fun ⟨go, fr⟩ => ?_
        cases go with
        | true => exact hev onTrue fr h.1.2
        | false => exact hev other fr h.2
    | loop cond body =>
      rw [Code.within, Bool.and_eq_true] at h
      exact (hev.evalLoop h.1 h.2 patience fr).bind fun _ => .pure _
    | binary op left right =>
      rw [Code.within, Bool.and_eq_true] at h
      refine (hev left fr h.1).bind fun ⟨a, fr⟩ => (hev right fr h.2).bind fun ⟨b, fr⟩ => ?_
      exact (Run.Preserves.lift _).bind fun _ => .pure _
    | not value =>
      rw [Code.within] at h
      exact (hev.evalTest h fr).bind fun _ => .pure _
    | and left right =>
      rw [Code.within, Bool.and_eq_true] at h
      refine (hev.evalTest h.1 fr).bind fun ⟨a, fr⟩ => ?_
      cases a with
      | true => exact (hev.evalTest h.2 fr).bind fun _ => .pure _
      | false => exact .pure _
    | or left right =>
      rw [Code.within, Bool.and_eq_true] at h
      refine (hev.evalTest h.1 fr).bind fun ⟨a, fr⟩ => ?_
      cases a with
      | true => exact .pure _
      | false => exact (hev.evalTest h.2 fr).bind fun _ => .pure _
    | call callee args =>
      rw [Code.within, Bool.and_eq_true] at h
      refine (hev.evalAll args fr h.2).bind fun ⟨values, fr⟩ => ?_
      have hcall : ∀ handle, callable handle = true →
          Run.Preserves I (invoke lib (eval lib depth) handle values) := fun handle hcallable =>
        invoke_preserves hI hconfines hrun hcallable values
      cases callee with
      | own index => exact (hcall ⟨home, index⟩ h.1).bind fun _ => .pure _
      | foreign other index => exact (hcall ⟨other, index⟩ h.1).bind fun _ => .pure _
    | make type fields =>
      rw [Code.within] at h
      exact (hev.evalAll fields fr h).bind fun _ => .pure _
    | seqLit elem items =>
      rw [Code.within] at h
      refine (hev.evalAll items fr h).bind fun _ => ?_
      exact (Run.Preserves.lift _).bind fun _ => .pure _
    | fieldPtr base _ _ | fieldGet base _ | cast base _ | addr base | seqLen base =>
      rw [Code.within] at h
      refine (hev base fr h).bind fun _ => ?_
      exact (Run.Preserves.lift _).bind fun _ => .pure _
    | load ptr type =>
      rw [Code.within] at h
      refine (hev ptr fr h).bind fun _ => (Run.Preserves.lift _).bind fun _ => ?_
      refine .get fun _ _ => (Run.Preserves.lift _).bind fun _ => ?_
      exact (Run.Preserves.lift _).bind fun _ => .pure _
    | offset ptr count stride =>
      rw [Code.within, Bool.and_eq_true] at h
      refine (hev ptr fr h.1).bind fun ⟨p, fr⟩ => (hev count fr h.2).bind fun _ => ?_
      refine (Run.Preserves.lift _).bind fun _ => ?_
      exact (Run.Preserves.lift _).bind fun _ => .pure _
    | store ptr value type =>
      rw [Code.within, Bool.and_eq_true, Bool.and_eq_true] at h
      refine (hev ptr fr h.1.2).bind fun ⟨p, fr⟩ => (hev value fr h.2).bind fun _ => ?_
      refine (Run.Preserves.lift _).bind fun _ => (Run.Preserves.lift _).bind fun _ => ?_
      exact (Run.Preserves.updateHeap (hI.memory h.1.1)).bind fun _ => .pure _
    | seqCopy dst seq =>
      rw [Code.within, Bool.and_eq_true, Bool.and_eq_true] at h
      refine (hev dst fr h.1.2).bind fun ⟨p, fr⟩ => (hev seq fr h.2).bind fun _ => ?_
      refine (Run.Preserves.lift _).bind fun _ => (Run.Preserves.lift _).bind fun _ => ?_
      exact (Run.Preserves.updateHeap (hI.memory h.1.1)).bind fun _ => .pure _

/-- Code that is run from outside leaves alone what its effects leave alone. -/
theorem evaluate_preserves {home : ModuleId} {code : Code}
    (h : code.within may callable home = true) (slots : Nat) :
    Run.Preserves I (evaluate lib home slots code) :=
  (eval_preserves hI hconfines maxDepth home code _ h).bind fun _ => .pure _

end Kiln
