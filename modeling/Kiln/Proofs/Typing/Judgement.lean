import Kiln.Proofs.Typing.Standing
import Mathlib.Data.Set.Insert
/-!
# Typed code

`HasType P home slots A c t B` says of code of the module `home`, in a frame whose slots have the
types `slots`, that it is of the type `t`: the slots in `A` were assigned before it runs, and those
in `B` are when it is over. Code that may not run to its end counts for nothing: what the second
operand of an `and`, a branch or the body of a loop assigns is forgotten.

What a piece of code knows of the modules around it is an `Interface`: the types of their globals
and functions, and how far values may be from their types. With `Laxity.full` the slots matter
little, as every slot counts as assigned from the start (`Assigned.start`).
-/

namespace Kiln

/-- What code may use of the modules there are. -/
structure Interface where
  laxity : Laxity
  layouts : Layouts
  /-- How many modules there are. -/
  count : Nat
  /-- The type of a global, if it may be used. -/
  global : ModuleId → Nat → Option Ty
  /-- The types of a function's parameters and of its result, if it may be called. -/
  function : FunctionHandle → Option (List Ty × Ty)

/-- The function that a call in the module `home` goes to. -/
def Callee.handle (home : ModuleId) : Callee → FunctionHandle
  | .own index => ⟨home, index⟩
  | .foreign other index => ⟨other, index⟩

/-- The type of an `if` by those of its branches: they agree, or it is unit whatever they are. -/
inductive Joins (L : Laxity) : Ty → Ty → Ty → Prop
  | same {t : Ty} : Joins L t t t
  | integers {t u : Ty} : t.isInteger = true → u.isInteger = true → Joins L t u t
  | mixed {t u : Ty} : L.mixed → Joins L t u .unit

/-- Types that are each assignable to one that is expected. -/
abbrev AllAssignable (expected found : List Ty) : Prop :=
  List.Forall₂ (fun t u => isAssignable t u = true) expected found

/-- The slots that have been assigned. -/
abbrev Assigned := Set Nat

section Judgement

variable (P : Interface) (home : ModuleId) (slots : List Ty)

mutual

/-- Code of a type. -/
inductive HasType : Assigned → Code → Ty → Assigned → Prop
  | const {A : Assigned} {v : Value} {t : Ty} : v.Conforms P.layouts t → HasType A (.const v) t A
  | getLocal {A : Assigned} {i : Nat} {t : Ty} : slots[i]? = some t → i ∈ A →
      HasType A (.getLocal i) t A
  | setLocal {A B : Assigned} {i : Nat} {c : Code} {t u : Ty} : slots[i]? = some t →
      HasType A c u B → isAssignable t u = true → HasType A (.setLocal i c) .unit (insert i B)
  | getGlobal {A : Assigned} {i : Nat} {t : Ty} : P.global home i = some t →
      HasType A (.getGlobal i) t A
  | setGlobal {A B : Assigned} {i : Nat} {c : Code} {t u : Ty} : P.global home i = some t →
      HasType A c u B → isAssignable t u = true → HasType A (.setGlobal i c) .unit B
  | foreignGlobal {A : Assigned} {other : ModuleId} {i : Nat} {t : Ty} : P.global other i = some t →
      HasType A (.foreignGlobal other i) t A
  | block {A B : Assigned} {cs : List Code} {ts : List Ty} : HasTypes A cs ts B →
      HasType A (.block cs) (ts.getLastD .unit) B
  | branch {A B D E : Assigned} {c yes no : Code} {r t u v : Ty} : HasType A c r B →
      HasType B yes t D → HasType B no u E → Joins P.laxity t u v →
      HasType A (.branch c yes (some no)) v B
  /-- An `if` without an alternative is of type unit. -/
  | when {A B D : Assigned} {c yes : Code} {r t v : Ty} : HasType A c r B → HasType B yes t D →
      Joins P.laxity t .unit v → HasType A (.branch c yes none) v B
  | loop {A B D : Assigned} {c body : Code} {r t : Ty} : HasType A c r B → HasType B body t D →
      HasType A (.loop c body) .unit B
  | binary {A B D : Assigned} {op : BinaryOp} {left right : Code} {r s t : Ty} :
      HasType A left r B → HasType B right s D →
      op.Gives t → HasType A (.binary op left right) t D
  | not {A B : Assigned} {c : Code} {t : Ty} : HasType A c t B → HasType A (.not c) .bool B
  | and {A B D : Assigned} {left right : Code} {s t : Ty} : HasType A left s B →
      HasType B right t D → HasType A (.and left right) .bool B
  | or {A B D : Assigned} {left right : Code} {s t : Ty} : HasType A left s B →
      HasType B right t D → HasType A (.or left right) .bool B
  | call {A B : Assigned} {callee : Callee} {args : List Code} {params ts : List Ty} {result : Ty} :
      P.function (callee.handle home) = some (params, result) → HasTypes A args ts B →
      AllAssignable params ts → HasType A (.call callee args) result B
  | fieldPtr {A B : Assigned} {c : Code} {offset : UInt64} {t u : Ty} : HasType A c u B →
      HasType A (.fieldPtr c offset t) (.ptr t) B
  | fieldGet {A B : Assigned} {c : Code} {i : Nat} {ref : StructRef} {l : Layout} {f : Field} :
      HasType A c (.struct ref) B → P.layouts.find? ref = some l → l.fields[i]? = some f →
      HasType A (.fieldGet c i) f.type B
  | make {A B : Assigned} {ref : StructRef} {cs : List Code} {l : Layout} {ts : List Ty} :
      P.layouts.find? ref = some l → HasTypes A cs ts B →
      AllAssignable (l.fields.map (·.type)) ts → HasType A (.make ref cs) (.struct ref) B
  | load {A B : Assigned} {c : Code} {t u : Ty} : HasType A c u B → HasType A (.load c t) t B
  | store {A B D : Assigned} {place value : Code} {s t u : Ty} : HasType A place s B →
      HasType B value u D → HasType A (.store place value t) .unit D
  | cast {A B : Assigned} {c : Code} {t u : Ty} : HasType A c u B → isCastable u t = true →
      HasType A (.cast c t) t B
  | offset {A B D : Assigned} {place count : Code} {stride : UInt64} {s t u : Ty} :
      HasType A place s B → HasType B count u D →
      HasType A (.offset place count stride) (.ptr t) D
  | addr {A B : Assigned} {c : Code} {t : Ty} : HasType A c t B → HasType A (.addr c) .u64 B
  | seqLit {A B : Assigned} {t : Ty} {cs : List Code} {ts : List Ty} : HasTypes A cs ts B →
      HasType A (.seqLit t cs) (.seq t) B
  | seqLen {A B : Assigned} {c : Code} {t : Ty} : HasType A c t B → HasType A (.seqLen c) .u64 B
  | seqCopy {A B D : Assigned} {place seq : Code} {s t : Ty} : HasType A place s B →
      HasType B seq t D → HasType A (.seqCopy place seq) .unit D

/-- Code of types, one after the other. -/
inductive HasTypes : Assigned → List Code → List Ty → Assigned → Prop
  | nil {A : Assigned} : HasTypes A [] [] A
  | cons {A B D : Assigned} {c : Code} {cs : List Code} {t : Ty} {ts : List Ty} :
      HasType A c t B → HasTypes B cs ts D → HasTypes A (c :: cs) (t :: ts) D

end

end Judgement

variable {P : Interface} {home : ModuleId} {slots : List Ty}

mutual

/-- **Slots that were assigned stay so.** -/
theorem HasType.subset : ∀ {A B : Assigned} {c : Code} {t : Ty},
    HasType P home slots A c t B → A ⊆ B
  | _, _, _, _, .const _ | _, _, _, _, .getLocal _ _ | _, _, _, _, .getGlobal _
  | _, _, _, _, .foreignGlobal _ => Set.Subset.rfl
  | _, _, _, _, .setLocal _ h _ => h.subset.trans (Set.subset_insert _ _)
  | _, _, _, _, .block h | _, _, _, _, .call _ h _ | _, _, _, _, .make _ h _
  | _, _, _, _, .seqLit h => h.subset
  | _, _, _, _, .branch h _ _ _ | _, _, _, _, .when h _ _ | _, _, _, _, .loop h _
  | _, _, _, _, .and h _ | _, _, _, _, .or h _ | _, _, _, _, .setGlobal _ h _
  | _, _, _, _, .not h | _, _, _, _, .fieldPtr h | _, _, _, _, .fieldGet h _ _
  | _, _, _, _, .load h | _, _, _, _, .cast h _ | _, _, _, _, .addr h
  | _, _, _, _, .seqLen h => h.subset
  | _, _, _, _, .binary h h' _ | _, _, _, _, .store h h' | _, _, _, _, .offset h h'
  | _, _, _, _, .seqCopy h h' => h.subset.trans h'.subset

theorem HasTypes.subset : ∀ {A B : Assigned} {cs : List Code} {ts : List Ty},
    HasTypes P home slots A cs ts B → A ⊆ B
  | _, _, _, _, .nil => Set.Subset.rfl
  | _, _, _, _, .cons h hs => h.subset.trans hs.subset

end

/-! ## More to use -/

/-- The one interface has all that the other has, and is no stricter. -/
structure Interface.Within (P Q : Interface) : Prop where
  unset : P.laxity.unset → Q.laxity.unset
  mixed : P.laxity.mixed → Q.laxity.mixed
  layouts : P.layouts.Within Q.layouts
  global : ∀ home i t, P.global home i = some t → Q.global home i = some t
  function : ∀ handle sig, P.function handle = some sig → Q.function handle = some sig

theorem Joins.mono {L M : Laxity} (h : L.mixed → M.mixed) {t u v : Ty} :
    Joins L t u v → Joins M t u v
  | .same => .same
  | .integers ht hu => .integers ht hu
  | .mixed hmixed => .mixed (h hmixed)

mutual

/-- **Code keeps its type** when there is more that it may use. -/
theorem HasType.mono {Q : Interface} (hPQ : P.Within Q) : ∀ {A B : Assigned} {c : Code} {t : Ty},
    HasType P home slots A c t B → HasType Q home slots A c t B
  | _, _, _, _, .const h => .const ((h.standsFor.mono hPQ.layouts).conforms)
  | _, _, _, _, .getLocal ht hi => .getLocal ht hi
  | _, _, _, _, .setLocal ht h hassign => .setLocal ht (h.mono hPQ) hassign
  | _, _, _, _, .getGlobal ht => .getGlobal (hPQ.global _ _ _ ht)
  | _, _, _, _, .setGlobal ht h hassign => .setGlobal (hPQ.global _ _ _ ht) (h.mono hPQ) hassign
  | _, _, _, _, .foreignGlobal ht => .foreignGlobal (hPQ.global _ _ _ ht)
  | _, _, _, _, .block h => .block (h.mono hPQ)
  | _, _, _, _, .branch h hyes hno hjoins =>
    .branch (h.mono hPQ) (hyes.mono hPQ) (hno.mono hPQ) (hjoins.mono hPQ.mixed)
  | _, _, _, _, .when h hyes hjoins => .when (h.mono hPQ) (hyes.mono hPQ) (hjoins.mono hPQ.mixed)
  | _, _, _, _, .loop h hbody => .loop (h.mono hPQ) (hbody.mono hPQ)
  | _, _, _, _, .binary h h' ht => .binary (h.mono hPQ) (h'.mono hPQ) ht
  | _, _, _, _, .not h => .not (h.mono hPQ)
  | _, _, _, _, .and h h' => .and (h.mono hPQ) (h'.mono hPQ)
  | _, _, _, _, .or h h' => .or (h.mono hPQ) (h'.mono hPQ)
  | _, _, _, _, .call hf h hassign => .call (hPQ.function _ _ hf) (h.mono hPQ) hassign
  | _, _, _, _, .fieldPtr h => .fieldPtr (h.mono hPQ)
  | _, _, _, _, .fieldGet h hl hf => .fieldGet (h.mono hPQ) (hPQ.layouts _ _ hl) hf
  | _, _, _, _, .make hl h hassign => .make (hPQ.layouts _ _ hl) (h.mono hPQ) hassign
  | _, _, _, _, .load h => .load (h.mono hPQ)
  | _, _, _, _, .store h h' => .store (h.mono hPQ) (h'.mono hPQ)
  | _, _, _, _, .cast h hcast => .cast (h.mono hPQ) hcast
  | _, _, _, _, .offset h h' => .offset (h.mono hPQ) (h'.mono hPQ)
  | _, _, _, _, .addr h => .addr (h.mono hPQ)
  | _, _, _, _, .seqLit h => .seqLit (h.mono hPQ)
  | _, _, _, _, .seqLen h => .seqLen (h.mono hPQ)
  | _, _, _, _, .seqCopy h h' => .seqCopy (h.mono hPQ) (h'.mono hPQ)

theorem HasTypes.mono {Q : Interface} (hPQ : P.Within Q) :
    ∀ {A B : Assigned} {cs : List Code} {ts : List Ty}, HasTypes P home slots A cs ts B →
      HasTypes Q home slots A cs ts B
  | _, _, _, _, .nil => .nil
  | _, _, _, _, .cons h hs => .cons (h.mono hPQ) (hs.mono hPQ)

end

/-! ## Functions -/

/-- The slots that are assigned when a call of a function with `n` parameters begins, as far as the
laxity asks for it. -/
def Assigned.AtStart (L : Laxity) (n : Nat) (A : Assigned) : Prop := L.unset ∨ ∀ i ∈ A, i < n

/-- Code of the module `home` that takes a value of each type to one of the type `result`, in a
frame of `n` slots. -/
def Code.Takes (P : Interface) (home : ModuleId) (params : List Ty) (result : Ty)
    (n : Nat) (c : Code) :
    Prop :=
  ∃ slots A t B, slots.length = n ∧ params <+: slots ∧ Assigned.AtStart P.laxity params.length A ∧
    HasType P home slots A c t B ∧ isAssignable result t = true

/-- How many arguments a function of the host takes. -/
def Native.arity : Native → Nat
  | .malloc | .free | .panic | .print | .printInt | .sleepMs => 1
  | .memcpy | .memset => 3

/-- The type of what a function of the host gives. -/
def Native.result : Native → Ty
  | .malloc => .bytePtr
  | _ => .unit

/-- A function of the module `home` that does what its parameters and its result say. -/
def Function.Typed (f : Function) (P : Interface) (home : ModuleId) : Prop :=
  match f.body with
  | .code n c => c.Takes P home (f.params.map (·.2)) f.result n
  | .native op => f.params.length = op.arity ∧ f.result = op.result

section Mono

variable {Q : Interface} (hPQ : P.Within Q)

include hPQ

theorem Code.Takes.mono {params : List Ty} {result : Ty} {n : Nat} {c : Code}
    (h : c.Takes P home params result n) : c.Takes Q home params result n := by
  obtain ⟨slots, A, t, B, hlen, hparams, hA, hc, hassign⟩ := h
  exact ⟨slots, A, t, B, hlen, hparams, hA.imp_left hPQ.unset, hc.mono hPQ, hassign⟩

/-- A function keeps its type when there is more that it may use. -/
theorem Function.Typed.mono {f : Function} (h : f.Typed P home) : f.Typed Q home := by
  unfold Function.Typed at h ⊢
  split
  · rename_i hbody
    rw [hbody] at h
    exact h.mono hPQ
  · rename_i hbody
    rwa [hbody] at h

end Mono

end Kiln
