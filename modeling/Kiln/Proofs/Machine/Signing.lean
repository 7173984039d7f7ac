import Kiln.Proofs.Machine.Effects
/-!
# Evaluation that signs what it assigns

The same evaluation, which writes down each assignment of a global and signs it with the one whose
code it runs there: a function that was called, or the initialiser of a global (`signedEval`).
Nobody signs what changes no global. Without the signatures it is the evaluation of the machine, and
the globals that a run leaves are those it found, with what was written down assigned to them in
order (`Signs`, `signedEval_signs`). So whatever holds of every assignment that is written down
accounts for all that happens to globals, however the run ends.
-/

namespace Kiln

/-! ## Parts of code -/

/-- The operands of code: what it runs as a step of its own. -/
def Code.operands : Code → List Code
  | .const _ | .getLocal _ | .getGlobal _ | .foreignGlobal _ _ => []
  | .setLocal _ c | .setGlobal _ c | .not c | .fieldPtr c _ _ | .fieldGet c _ | .load
      c _ | .cast c _
  | .addr c | .seqLen c => [c]
  | .block cs | .call _ cs | .make _ cs | .seqLit _ cs => cs
  | .branch c yes (some no) => [c, yes, no]
  | .branch c yes none => [c, yes]
  | .loop c d | .binary _ c d | .and c d | .or c d | .offset c d _ | .store c d _ | .seqCopy c d =>
    [c, d]

/-- The one is a part of the other: it is all of it, or part of an operand. -/
inductive Code.Part : Code → Code → Prop
  | all (c : Code) : Part c c
  | operand {part c d : Code} : d ∈ c.operands → Part part d → Part part c

/-! ## Signed assignments -/

/-- The one whose code runs: a function, or the initialiser of a global. -/
inductive Author where
  | function (handle : FunctionHandle)
  | initialiser (home : ModuleId) (index : Nat)
  deriving DecidableEq, Repr

/-- The module that the author's code is of. -/
def Author.home : Author → ModuleId
  | .function handle => handle.home
  | .initialiser home _ => home

/-- A global was assigned to, by code of the author. -/
structure Assignment where
  author : Author
  home : ModuleId
  index : Nat
  value : Value

/-- The globals after some assignments, of which the last comes first. -/
def replay (globals : Array (List Value)) (made : List Assignment) : Array (List Value) :=
  made.foldr (fun a globals => globals.modify a.home.index (·.set a.index a.value)) globals

/-- A store and the assignments that were made so far, the last of them first. -/
structure Signed where
  store : Store
  log : List Assignment

/-- Computations that write down what they assign. -/
abbrev SignedRun := EStateM Stop Signed

/-- Runs a part of the code in a frame, and writes down what that assigns. -/
abbrev SignedEvaluator := Code → Frame → SignedRun (Value × Frame)

namespace SignedRun

variable {α : Type}

/-- A run of which nothing is written down. -/
def quiet (x : Run α) : SignedRun α := fun s =>
  match x s.store with
  | .ok a store => .ok a { s with store }
  | .error e store => .error e { s with store }

/-- Gives a global its value and writes that down. -/
def assign (a : Assignment) : SignedRun Unit :=
  modify fun s => ⟨s.store.setGlobal a.home a.index a.value, a :: s.log⟩

/-- The run without what it writes down. -/
def unsigned (x : SignedRun α) : Run α := fun s =>
  match x ⟨s, []⟩ with
  | .ok a s' => .ok a s'.store
  | .error e s' => .error e s'.store

/-- What a run has written down when it ends. -/
def made (x : SignedRun α) (s : Store) : List Assignment :=
  match x ⟨s, []⟩ with
  | .ok _ s' | .error _ s' => s'.log

end SignedRun

/-- The store that is left when a run ends. -/
def Run.after {α : Type} (x : Run α) (s : Store) : Store :=
  match x s with
  | .ok _ s' | .error _ s' => s'

theorem Run.after_of_ok {α : Type} {x : Run α} {s s' : Store} {a : α} (h : x s = .ok a s') :
    x.after s = s' := by
  rw [after, h]

theorem Run.after_of_error {α : Type} {x : Run α} {s s' : Store} {e : Stop}
    (h : x s = .error e s') :
    x.after s = s' := by
  rw [after, h]

/-! ## Signed evaluation -/

section Parts

variable (ev : SignedEvaluator)

/-- Evaluates code one after the other, for the values. -/
def signedAll : List Code → Frame → SignedRun (List Value × Frame)
  | [], fr => pure ([], fr)
  | c :: cs, fr => do
    let (v, fr) ← ev c fr
    let (vs, fr) ← signedAll cs fr
    pure (v :: vs, fr)

/-- Evaluates code one after the other, for the last value. -/
def signedBlock (last : Value) : List Code → Frame → SignedRun (Value × Frame)
  | [], fr => pure (last, fr)
  | c :: cs, fr => do
    let (v, fr) ← ev c fr
    signedBlock v cs fr

/-- Evaluates code for a truth value. -/
def signedTest (c : Code) (fr : Frame) : SignedRun (Bool × Frame) := do
  let (v, fr) ← ev c fr
  pure (← .quiet (Run.lift v.asBool), fr)

/-- Evaluates the body for as long as the condition holds, at most the given number of times. -/
def signedLoop (cond body : Code) : Nat → Frame → SignedRun Frame
  | 0, _ => .quiet (Run.halt .endless)
  | n + 1, fr => do
    let (go, fr) ← signedTest ev cond fr
    if go then
      let (_, fr) ← ev body fr
      signedLoop cond body n fr
    else pure fr

end Parts

/-- Calls a function; `ev` runs the code of its module, of which the function is the author. -/
def signedInvoke (lib : Library) (ev : Author → ModuleId → SignedEvaluator)
    (handle : FunctionHandle) (args : List Value) : SignedRun Value := do
  let f ← .quiet (Run.present (lib.function? handle))
  if args.length ≠ f.params.length then
    .quiet (Run.fail (.arity f.name f.params.length args.length))
  else match f.body with
    | .native op => .quiet (op.run args)
    | .code slots code =>
      let fr := args ++ List.replicate (slots - args.length) .unit
      return (← ev (.function handle) handle.home code fr).1

/-- Runs code of the author in a frame, as code of the module `home`, at most `depth` levels
deep. -/
def signedEval (lib : Library) : Nat → Author → ModuleId → SignedEvaluator
  | 0, _, _, _, _ => .quiet (Run.fail (.tooDeep maxDepth))
  | depth + 1, author, home, code, fr => do
    let ev := signedEval lib depth author home
    match code with
    | .const v => pure (v, fr)
    | .getLocal slot => pure (← .quiet (Run.present fr[slot]?), fr)
    | .setLocal slot value =>
      let (v, fr) ← ev value fr
      if slot < fr.length then pure (.unit, fr.set slot v) else .quiet (Run.halt .stray)
    | .getGlobal index =>
      let s ← .quiet get
      pure (← .quiet (Run.present (s.global? home index)), fr)
    | .setGlobal index value =>
      let (v, fr) ← ev value fr
      SignedRun.assign ⟨author, home, index, v⟩
      pure (.unit, fr)
    | .foreignGlobal other index =>
      let s ← .quiet get
      pure (← .quiet (Run.present (s.global? other index)), fr)
    | .block items => signedBlock ev .unit items fr
    | .branch cond onTrue onFalse =>
      let (go, fr) ← signedTest ev cond fr
      if go then ev onTrue fr
      else match onFalse with
        | some other => ev other fr
        | none => pure (.unit, fr)
    | .loop cond body => pure (.unit, ← signedLoop ev cond body patience fr)
    | .binary op left right =>
      let (a, fr) ← ev left fr
      let (b, fr) ← ev right fr
      pure (← .quiet (Run.lift (op.apply a b)), fr)
    | .not value =>
      let (b, fr) ← signedTest ev value fr
      pure (.bool !b, fr)
    | .and left right =>
      let (a, fr) ← signedTest ev left fr
      if a then
        let (b, fr) ← signedTest ev right fr
        pure (.bool b, fr)
      else pure (.bool false, fr)
    | .or left right =>
      let (a, fr) ← signedTest ev left fr
      if a then pure (.bool true, fr)
      else
        let (b, fr) ← signedTest ev right fr
        pure (.bool b, fr)
    | .call callee args =>
      let (values, fr) ← signedAll ev args fr
      pure (← signedInvoke lib (signedEval lib depth) (callee.handle home) values, fr)
    | .fieldPtr base offset target =>
      let (v, fr) ← ev base fr
      let (addr, _) ← .quiet (Run.lift v.asPtr)
      pure (.ptr (addr + offset) target, fr)
    | .fieldGet base index =>
      let (v, fr) ← ev base fr
      pure (← .quiet (Run.lift (v.fieldAt index)), fr)
    | .make type fields =>
      let (vs, fr) ← signedAll ev fields fr
      pure (.struct type vs, fr)
    | .load ptr type =>
      let (v, fr) ← ev ptr fr
      let (addr, _) ← .quiet (Run.lift v.asPtr)
      let s ← .quiet get
      let bytes ← .quiet (Run.lift (s.heap.read addr (type.size lib.layouts)))
      pure (← .quiet (Run.lift (Value.decode lib.layouts type bytes)), fr)
    | .store ptr value type =>
      let (p, fr) ← ev ptr fr
      let (v, fr) ← ev value fr
      let bytes ← .quiet (Run.lift (v.encode lib.layouts type))
      let (addr, _) ← .quiet (Run.lift p.asPtr)
      .quiet (Run.updateHeap (·.write addr bytes))
      pure (.unit, fr)
    | .cast value type =>
      let (v, fr) ← ev value fr
      pure (← .quiet (Run.lift (v.cast type)), fr)
    | .offset ptr count stride =>
      let (p, fr) ← ev ptr fr
      let (c, fr) ← ev count fr
      let n ← .quiet (Run.lift c.asInt)
      let (addr, target) ← .quiet (Run.lift p.asPtr)
      pure (.ptr (strideFrom addr n stride) target, fr)
    | .addr ptr =>
      let (p, fr) ← ev ptr fr
      let (addr, _) ← .quiet (Run.lift p.asPtr)
      pure (.int addr.toInt64, fr)
    | .seqLit elem items =>
      let (vs, fr) ← signedAll ev items fr
      pure (← .quiet (Run.lift (Value.ofItems lib.layouts elem vs)), fr)
    | .seqLen seq =>
      let (v, fr) ← ev seq fr
      let (len, _) ← .quiet (Run.lift v.asSeq)
      pure (.int len.toInt64, fr)
    | .seqCopy dst seq =>
      let (p, fr) ← ev dst fr
      let (v, fr) ← ev seq fr
      let (addr, _) ← .quiet (Run.lift p.asPtr)
      let (_, bytes) ← .quiet (Run.lift v.asSeq)
      .quiet (Run.updateHeap (·.write addr bytes))
      pure (.unit, fr)

/-- Calls a function from outside. -/
def signedCall (lib : Library) (handle : FunctionHandle) (args : List Value) : SignedRun Value :=
  signedInvoke lib (signedEval lib maxDepth) handle args

/-- Runs code of the author, which is of the module `home`, in a frame of its own. -/
def signedEvaluate (lib : Library) (author : Author) (home : ModuleId) (slots : Nat) (code : Code) :
    SignedRun Value :=
  return (← signedEval lib maxDepth author home code (List.replicate slots .unit)).1

/-! ## What signed runs come to -/

/-- The ends of a run that writes down assignments, each of which is as it should be, and of one
that does not: they are the same, and the globals are those at the start with the assignments
made. -/
inductive EndsSigned {α : Type} (P : Assignment → Prop) (s : Store) (log : List Assignment) :
    EStateM.Result Stop Signed α → EStateM.Result Stop Store α → Prop
  | value {a : α} {s' : Store} (made : List Assignment) : (∀ m ∈ made, P m) →
      s'.globals = replay s.globals made → EndsSigned P s log (.ok a ⟨s', made ++ log⟩) (.ok a s')
  | stop {e : Stop} {s' : Store} (made : List Assignment) : (∀ m ∈ made, P m) →
      s'.globals = replay s.globals made →
        EndsSigned P s log (.error e ⟨s', made ++ log⟩) (.error e s')

/-- A run that goes on behind assignments that are as they should be. -/
theorem EndsSigned.behind {α : Type} {P : Assignment → Prop} {s s₁ : Store}
    {made log : List Assignment} {ex : EStateM.Result Stop Signed α}
    {ey : EStateM.Result Stop Store α} (hmade : ∀ m ∈ made, P m)
    (hs : s₁.globals = replay s.globals made) (h : EndsSigned P s₁ (made ++ log) ex ey) :
    EndsSigned P s log ex ey := by
  have hboth : ∀ later : List Assignment, (∀ m ∈ later, P m) → ∀ m ∈ later ++ made, P m :=
    fun later hl m hm => (List.mem_append.1 hm).elim (hl m) (hmade m)
  -- what came later stands in front, so the two rows are replayed as one
  have hreplay : ∀ later : List Assignment,
      replay s₁.globals later = replay s.globals (later ++ made) := fun later => by
    rw [hs, replay, replay, replay, List.foldr_append]
  cases h with
  | value later hlater hs' =>
    rw [← List.append_assoc]
    exact .value _ (hboth later hlater) (hs'.trans (hreplay later))
  | stop later hlater hs' =>
    rw [← List.append_assoc]
    exact .stop _ (hboth later hlater) (hs'.trans (hreplay later))

/-- The one run is the other, writes down what that assigns, and signs only what is as it should
be. -/
def Signs {α : Type} (P : Assignment → Prop) (x : SignedRun α) (y : Run α) : Prop :=
  ∀ s log, EndsSigned P s log (x ⟨s, log⟩) (y s)

namespace Signs

variable {α β : Type} {P : Assignment → Prop} {x : SignedRun α} {y : Run α}

theorem pure (a : α) : Signs P (pure a) (pure a) := fun _ _ =>
  .value [] (fun _ h => by cases h) rfl

/-- A run that leaves the globals alone has nothing to write down. -/
theorem quiet (h : ∀ globals, y.Preserves (·.globals = globals)) : Signs P (.quiet y) y := by
  intro s log
  have hy := h s.globals s rfl
  unfold SignedRun.quiet
  dsimp only
  rcases hys : y s with ⟨a, s'⟩ | ⟨e, s'⟩
  · rw [hys] at hy
    exact .value [] (fun _ h => by cases h) hy
  · rw [hys] at hy
    exact .stop [] (fun _ h => by cases h) hy

theorem assign {a : Assignment} (h : P a) :
    Signs P (.assign a) (modify fun s => s.setGlobal a.home a.index a.value) := fun _ _ =>
  .value [a] (fun _ hm => List.mem_singleton.1 hm ▸ h) rfl

/-- **Signed runs that follow each other** write down what the first assigned and then what the
second did. -/
theorem bind {f : α → SignedRun β} {g : α → Run β} (hx : Signs P x y)
    (hf : ∀ a, Signs P (f a) (g a)) :
    Signs P (x >>= f) (y >>= g) := by
  intro s log
  have hend := hx s log
  show EndsSigned P s log (EStateM.bind x f ⟨s, log⟩) (EStateM.bind y g s)
  unfold EStateM.bind
  generalize x ⟨s, log⟩ = ex at hend
  generalize y s = ey at hend
  cases hend with
  | value _ hmade hs => exact (hf _ _ _).behind hmade hs
  | stop _ hmade hs => exact .stop _ hmade hs

theorem lift (x : Except Fault α) : Signs P (.quiet (Run.lift x)) (Run.lift x) :=
  .quiet fun _ => .lift x

theorem throw (e : Stop) : Signs P (.quiet (throw e : Run α)) (throw e) := .quiet fun _ => .throw e

/-- A step that needs something to be there. -/
theorem present {o : Option α} {f : α → SignedRun β} {g : α → Run β}
    (hf : ∀ a, o = some a → Signs P (f a) (g a)) :
    Signs P (.quiet (Run.present o) >>= f) (Run.present o >>= g) := by
  cases o with
  | none => exact fun _ _ => .stop [] (fun _ h => by cases h) rfl
  | some a => exact hf a rfl

theorem get : Signs P (.quiet get) get := .quiet fun _ _ h => h

theorem updateHeap (change : Heap → Except Fault Heap) :
    Signs P (.quiet (Run.updateHeap change)) (Run.updateHeap change) :=
  .quiet fun _ => .updateHeap fun _ _ h => h

/-- Functions of the host change no globals. -/
theorem native (op : Native) (args : List Value) :
    Signs P (.quiet (op.run args)) (op.run args) := by
  have hpreserve : ∀ globals, Effect.Preserve (· == .memory) (·.globals = globals) := fun globals =>
    ⟨fun _ _ h => h, fun _ _ _ h => h, fun _ hmay => by cases hmay⟩
  exact .quiet fun globals => op.run_preserves (hpreserve globals) rfl args

/-- **Without what it writes down, a signed run is the other.** -/
theorem unsigned (h : Signs P x y) : x.unsigned = y := by
  funext s
  have hend := h s []
  unfold SignedRun.unsigned
  generalize x ⟨s, []⟩ = ex at hend
  generalize y s = ey at hend
  cases hend <;> rfl

/-- All that a signed run writes down is as it should be. -/
theorem of_mem_made (h : Signs P x y) {s : Store} : ∀ a ∈ x.made s, P a := by
  have hend := h s []
  unfold SignedRun.made
  generalize x ⟨s, []⟩ = ex at hend
  generalize y s = ey at hend
  cases hend with
  | value _ hmade _ | stop _ hmade _ => rwa [List.append_nil]

/-- **The globals that a run leaves are what was written down makes of those it found.** -/
theorem globals_after (h : Signs P x y) (s : Store) :
    (y.after s).globals = replay s.globals (x.made s) := by
  have hend := h s []
  unfold Run.after SignedRun.made
  generalize x ⟨s, []⟩ = ex at hend ⊢
  generalize y s = ey at hend ⊢
  cases hend with
  | value _ _ hs | stop _ _ hs => rwa [List.append_nil]

end Signs

theorem size_replay {globals : Array (List Value)} : ∀ {made : List Assignment},
    (replay globals made).size = globals.size
  | [] => rfl
  | a :: made => by
    rw [replay, List.foldr_cons, Array.size_modify]
    exact size_replay

/-- A module to whose globals nothing was assigned keeps them. -/
theorem getElem?_replay {globals : Array (List Value)} {home : ModuleId} :
    ∀ {made : List Assignment}, (∀ a ∈ made, a.home ≠ home) →
      (replay globals made)[home.index]? = globals[home.index]?
  | [], _ => rfl
  | a :: made, h => by
    have hne : a.home.index ≠ home.index :=
      fun heq => h a List.mem_cons_self (congrArg ModuleId.mk heq)
    have hrest : (replay globals made)[home.index]? = globals[home.index]? :=
      getElem?_replay fun b hb => h b (List.mem_cons_of_mem a hb)
    rw [← hrest, replay, List.foldr_cons, Array.getElem?_modify, if_neg hne]
    rfl

/-! ## Signed evaluation is evaluation -/

variable (P : Assignment → Prop) (callable : FunctionHandle → Prop)

/-- Code of the module `home` that may call some functions only, and where the author may sign each
assignment that is found in it, whatever is assigned. -/
structure Code.Signable (author : Author) (home : ModuleId) (c : Code) : Prop where
  assign : ∀ {i : Nat} {d : Code}, Code.Part (.setGlobal i d) c → ∀ v, P ⟨author, home, i, v⟩
  call : ∀ {callee : Callee} {args : List Code}, Code.Part (.call callee args) c →
    callable (callee.handle home)

/-- Functions that may be called sign what is found in their code, and call none but each other. -/
def Library.Signable (lib : Library) : Prop :=
  ∀ handle f slots code, callable handle → lib.function? handle = some f →
    f.body = .code slots code →
    code.Signable P callable (.function handle) handle.home

variable {P callable}

theorem Code.Signable.operand {author : Author} {home : ModuleId} {c d : Code}
    (h : c.Signable P callable author home) (hd : d ∈ c.operands) :
    d.Signable P callable author home :=
  ⟨fun hpart => h.assign (.operand hd hpart), fun hpart => h.call (.operand hd hpart)⟩

/-- The one evaluator is the other, writes down what that assigns, and signs only what it should. -/
def SignedEvaluator.Signs (P : Assignment → Prop) (callable : FunctionHandle → Prop)
    (author : Author) (home : ModuleId) (signed : SignedEvaluator) (ev : Evaluator) : Prop :=
  ∀ c fr, c.Signable P callable author home → Kiln.Signs P (signed c fr) (ev c fr)

namespace SignedEvaluator.Signs

variable {author : Author} {home : ModuleId} {signed : SignedEvaluator} {ev : Evaluator}
  (hev : signed.Signs P callable author home ev)

include hev

theorem all : ∀ (cs : List Code) (fr : Frame), (∀ c ∈ cs, c.Signable P callable author home) →
    Kiln.Signs P (signedAll signed cs fr) (evalAll ev cs fr)
  | [], _, _ => .pure _
  | c :: cs, fr, h => by
    refine (hev c fr (h c List.mem_cons_self)).bind ?_
    rintro ⟨v, fr⟩
    exact (all cs fr fun d hd => h d (List.mem_cons_of_mem c hd)).bind fun _ => .pure _

theorem block : ∀ (cs : List Code) (last : Value) (fr : Frame),
    (∀ c ∈ cs, c.Signable P callable author home) →
      Kiln.Signs P (signedBlock signed last cs fr) (evalBlock ev last cs fr)
  | [], _, _, _ => .pure _
  | c :: cs, _, fr, h => by
    refine (hev c fr (h c List.mem_cons_self)).bind ?_
    rintro ⟨v, fr⟩
    exact block cs v fr fun d hd => h d (List.mem_cons_of_mem c hd)

theorem test {c : Code} (h : c.Signable P callable author home) (fr : Frame) :
    Kiln.Signs P (signedTest signed c fr) (evalTest ev c fr) :=
  (hev c fr h).bind fun _ => (Kiln.Signs.lift _).bind fun _ => .pure _

theorem loop {c body : Code} (h : c.Signable P callable author home)
    (hbody : body.Signable P callable author home) : ∀ (n : Nat) (fr : Frame),
      Kiln.Signs P (signedLoop signed c body n fr) (evalLoop ev c body n fr)
  | 0, _ => .throw _
  | n + 1, fr => by
    refine (hev.test h fr).bind ?_
    rintro ⟨go, fr⟩
    cases go with
    | false => exact .pure _
    | true => exact (hev body fr hbody).bind fun _ => loop h hbody n _

end SignedEvaluator.Signs

variable {lib : Library} (hlib : lib.Signable P callable)

include hlib

theorem signedInvoke_signs {signed : Author → ModuleId → SignedEvaluator}
    {run : ModuleId → Evaluator}
    (hrun : ∀ author home, (signed author home).Signs P callable author home (run home))
    {handle : FunctionHandle} (hcallable : callable handle) (args : List Value) :
    Signs P (signedInvoke lib signed handle args) (invoke lib run handle args) := by
  refine .present fun f hf => ?_
  have hcode := hlib handle f
  split
  · exact .throw _
  · rcases hbody : f.body with ⟨slots, code⟩ | op
    -- from here on the function that is called is the author, and its module the one whose globals
    -- are assigned
    · exact (hrun _ _ code _ (hcode slots code hcallable hf hbody)).bind fun _ => .pure _
    · exact .native op args

/-- **Signed evaluation is evaluation**, and signs what is found in the code of its authors, at any
depth. -/
theorem signedEval_signs : ∀ (depth : Nat) (author : Author) (home : ModuleId),
    (signedEval lib depth author home).Signs P callable author home (eval lib depth home)
  | 0, _, _ => fun _ _ _ => .throw _
  | depth + 1, author, home => by
    -- the depth goes down with each operand and each call, so one induction serves both
    have hrun : ∀ author home, (signedEval lib depth author home).Signs P callable author home
        (eval lib depth home) := signedEval_signs depth
    have hev := hrun author home
    intro code fr h
    unfold signedEval eval
    cases code with
    | const v => exact .pure _
    | getLocal slot => exact .present fun _ _ => .pure _
    | setLocal slot value =>
      refine (hev value fr (h.operand (.head _))).bind ?_
      rintro ⟨v, fr⟩
      dsimp only
      split
      · exact .pure _
      · exact .throw _
    | getGlobal index => exact Signs.get.bind fun _ => .present fun _ _ => .pure _
    -- the one step that assigns, and it does so in the module whose code runs
    | setGlobal index value =>
      refine (hev value fr (h.operand (.head _))).bind ?_
      rintro ⟨v, fr⟩
      exact (Signs.assign (a := ⟨author, home, index, v⟩) (h.assign (.all _) v)).bind
        fun _ => .pure _
    | foreignGlobal other index => exact Signs.get.bind fun _ => .present fun _ _ => .pure _
    | block items => exact hev.block items _ fr fun c hc => h.operand hc
    | branch cond onTrue onFalse =>
      cases onFalse with
      | none =>
        refine (hev.test (h.operand (.head _)) fr).bind ?_
        rintro ⟨go, fr⟩
        cases go with
        | true => exact hev onTrue fr (h.operand (.tail _ (.head _)))
        | false => exact .pure _
      | some other =>
        refine (hev.test (h.operand (.head _)) fr).bind ?_
        rintro ⟨go, fr⟩
        cases go with
        | true => exact hev onTrue fr (h.operand (.tail _ (.head _)))
        | false => exact hev other fr (h.operand (.tail _ (.tail _ (.head _))))
    | loop cond body =>
      refine (hev.loop (h.operand (.head _)) (h.operand (.tail _ (.head _))) patience fr).bind
        fun _ => ?_
      exact .pure _
    | binary op left right =>
      refine (hev left fr (h.operand (.head _))).bind ?_
      rintro ⟨a, fr⟩
      refine (hev right fr (h.operand (.tail _ (.head _)))).bind ?_
      rintro ⟨b, fr⟩
      exact (Signs.lift _).bind fun _ => .pure _
    | not value => exact (hev.test (h.operand (.head _)) fr).bind fun _ => .pure _
    | and left right =>
      refine (hev.test (h.operand (.head _)) fr).bind ?_
      rintro ⟨a, fr⟩
      cases a with
      | true => exact (hev.test (h.operand (.tail _ (.head _))) fr).bind fun _ => .pure _
      | false => exact .pure _
    | or left right =>
      refine (hev.test (h.operand (.head _)) fr).bind ?_
      rintro ⟨a, fr⟩
      cases a with
      | true => exact .pure _
      | false => exact (hev.test (h.operand (.tail _ (.head _))) fr).bind fun _ => .pure _
    | call callee args =>
      refine (hev.all args fr fun c hc => h.operand hc).bind ?_
      rintro ⟨values, fr⟩
      have hcall := signedInvoke_signs hlib hrun (h.call (.all _)) values
      cases callee with
      | own index => exact hcall.bind fun _ => .pure _
      | foreign other index => exact hcall.bind fun _ => .pure _
    | make type fields => exact (hev.all fields fr fun c hc => h.operand hc).bind fun _ => .pure _
    | seqLit elem items =>
      refine (hev.all items fr fun c hc => h.operand hc).bind fun _ => ?_
      exact (Signs.lift _).bind fun _ => .pure _
    | fieldPtr base _ _ | fieldGet base _ | cast base _ | addr base | seqLen base =>
      refine (hev base fr (h.operand (.head _))).bind fun _ => ?_
      exact (Signs.lift _).bind fun _ => .pure _
    | load ptr type =>
      refine (hev ptr fr (h.operand (.head _))).bind fun _ => (Signs.lift _).bind fun _ => ?_
      refine Signs.get.bind fun _ => (Signs.lift _).bind fun _ => ?_
      exact (Signs.lift _).bind fun _ => .pure _
    | offset ptr count stride =>
      refine (hev ptr fr (h.operand (.head _))).bind ?_
      rintro ⟨p, fr⟩
      refine (hev count fr (h.operand (.tail _ (.head _)))).bind fun _ => ?_
      exact (Signs.lift _).bind fun _ => (Signs.lift _).bind fun _ => .pure _
    | store ptr value type =>
      refine (hev ptr fr (h.operand (.head _))).bind ?_
      rintro ⟨p, fr⟩
      refine (hev value fr (h.operand (.tail _ (.head _)))).bind fun _ => ?_
      refine (Signs.lift _).bind fun _ => (Signs.lift _).bind fun _ => ?_
      exact (Signs.updateHeap _).bind fun _ => .pure _
    | seqCopy dst seq =>
      refine (hev dst fr (h.operand (.head _))).bind ?_
      rintro ⟨p, fr⟩
      refine (hev seq fr (h.operand (.tail _ (.head _)))).bind fun _ => ?_
      refine (Signs.lift _).bind fun _ => (Signs.lift _).bind fun _ => ?_
      exact (Signs.updateHeap _).bind fun _ => .pure _

/-- **A signed call is the call**, and so are those it makes. -/
theorem signedCall_signs {handle : FunctionHandle} (hcallable : callable handle)
    (args : List Value) :
    Signs P (signedCall lib handle args) (Kiln.call lib handle args) :=
  signedInvoke_signs hlib (signedEval_signs hlib maxDepth) hcallable args

theorem signedEvaluate_signs {author : Author} {home : ModuleId} {code : Code}
    (h : code.Signable P callable author home) (slots : Nat) :
    Signs P (signedEvaluate lib author home slots code) (evaluate lib home slots code) :=
  (signedEval_signs hlib maxDepth author home code _ h).bind fun _ => .pure _

end Kiln
