import Kiln.Proofs.Typing.Judgement
/-!
# Typed code runs in an orderly way

Code of a type, run in a frame that holds what its slots say, ends with a value that stands for its
type, in such a frame; and where it stops it is orderly (`Interface.Describes.eval`). What is known
of the modules around it has to be true of the library (`Interface.Describes`), and the globals have
to hold values of their types (`Interface.Keeps`), which typed code does not change. The proof is by
induction on the depth: the parts of the code and the functions it calls run at a smaller one.
-/

namespace Kiln

open Value

variable {P : Interface} {home : ModuleId} {slots : List Ty} {lib : Library}

/-- What is known of the modules is true of the library. -/
structure Interface.Describes (P : Interface) (lib : Library) : Prop where
  layouts : P.layouts = lib.layouts
  function : ∀ handle params result, P.function handle = some (params, result) →
    ∃ f, lib.function? handle = some f ∧ f.params.map (·.2) = params ∧ f.result = result ∧
      f.Typed P handle.home

/-- A store with globals for each module, where each that may be used holds a value that stands for
its type. -/
structure Interface.Keeps (P : Interface) (s : Store) : Prop where
  size : s.globals.size = P.count
  value : ∀ home i t, P.global home i = some t → ∃ v, s.global? home i = some v ∧
    StandsFor P.laxity P.layouts v t

/-- A frame with a value for each slot, where those that were assigned stand for the slots'
types. -/
structure Holds (P : Interface) (slots : List Ty) (A : Assigned) (fr : Frame) : Prop where
  length : fr.length = slots.length
  slot : ∀ i ∈ A, ∀ t, slots[i]? = some t → ∃ v, fr[i]? = some v ∧ StandsFor P.laxity P.layouts v t

namespace Holds

variable {A B : Assigned} {fr : Frame}

theorem mono (h : Holds P slots B fr) (hle : A ⊆ B) : Holds P slots A fr :=
  ⟨h.length, fun i hi => h.slot i (hle hi)⟩

/-- A slot is assigned. -/
theorem set (h : Holds P slots A fr) {i : Nat} {t : Ty} {v : Value} (ht : slots[i]? = some t)
    (hv : StandsFor P.laxity P.layouts v t) : Holds P slots (insert i A) (fr.set i v) := by
  refine ⟨by rw [List.length_set, h.length], fun j hj u hu => ?_⟩
  by_cases hij : i = j
  · subst hij
    cases ht.symm.trans hu
    have hlt : i < fr.length := h.length ▸ (List.getElem?_eq_some_iff.1 ht).1
    exact ⟨v, List.getElem?_set_self hlt, hv⟩
  · obtain ⟨w, hw, hstands⟩ := h.slot j (hj.resolve_left fun heq => hij heq.symm) u hu
    exact ⟨w, by rwa [List.getElem?_set_ne hij], hstands⟩

/-- **The frame of a call holds the arguments**, and unit in all other slots. -/
theorem start {n : Nat} {params : List Ty} {args : List Value} (hlen : slots.length = n)
    (hparams : params <+: slots) (hargs : AllStandFor P.laxity P.layouts args params)
    (hA : Assigned.AtStart P.laxity params.length A) :
    Holds P slots A (args ++ List.replicate (n - args.length) .unit) := by
  have hcount : args.length ≤ n := by
    rw [hargs.length_eq, ← hlen]
    exact hparams.length_le
  refine ⟨?_, fun i hi t ht => ?_⟩
  · rw [List.length_append, List.length_replicate, hlen]
    omega
  · have hi' : i < n := hlen ▸ (List.getElem?_eq_some_iff.1 ht).1
    have hargslen := hargs.length_eq
    by_cases hparam : i < params.length
    · have ht' : params[i]? = some t := by
        obtain ⟨rest, rfl⟩ := hparams
        rwa [List.getElem?_append_left hparam] at ht
      obtain ⟨v, hv, hstands⟩ := hargs.getElem? ht'
      refine ⟨v, ?_, hstands⟩
      rw [List.getElem?_append_left (by omega), hv]
    · refine ⟨.unit, ?_, standsFor_of_unset (hA.resolve_right fun hsome => hparam (hsome i hi))⟩
      rw [List.getElem?_append_right (by omega), List.getElem?_replicate, if_pos (by omega)]

end Holds

/-! ## Values of types -/

theorem AllAssignable.allStandFor : ∀ {expected found : List Ty} {vs : List Value},
    AllAssignable expected found → AllStandFor P.laxity P.layouts vs found →
      AllStandFor P.laxity P.layouts vs expected
  | [], [], [], _, _ => trivial
  | _ :: _, _ :: _, _ :: _, .cons h hs, ⟨hv, hvs⟩ => ⟨hv.assign h, AllAssignable.allStandFor hs hvs⟩

theorem Joins.left {t u v : Ty} {w : Value} (h : Joins P.laxity t u v)
    (hw : StandsFor P.laxity P.layouts w t) : StandsFor P.laxity P.layouts w v := by
  cases h with
  | same => exact hw
  | integers _ _ => exact hw
  | mixed hmixed => exact standsFor_of_mixed hmixed

theorem Joins.right {t u v : Ty} {w : Value} (h : Joins P.laxity t u v)
    (hw : StandsFor P.laxity P.layouts w u) : StandsFor P.laxity P.layouts w v := by
  cases h with
  | same => exact hw
  | integers ht hu => exact hw.integer ht hu
  | mixed hmixed => exact standsFor_of_mixed hmixed

/-! ## The store -/

theorem Interface.ofGlobals_keeps (P : Interface) : Run.OfGlobals P.Keeps := by
  intro s s' hglobals h
  refine ⟨by rw [hglobals, h.size], fun home i t ht => ?_⟩
  obtain ⟨v, hv, hstands⟩ := h.value home i t ht
  exact ⟨v, by rwa [Store.global?, hglobals], hstands⟩

/-- A global that is given a value holds it, and the others hold what they did. -/
theorem Store.global?_setGlobal {s : Store} {other : ModuleId} {j : Nat} {w : Value}
    (h : s.global? other j = some w) (home : ModuleId) (i : Nat) (v : Value) :
    (s.setGlobal home i v).global? other j = some (if other = home ∧ j = i then v else w) := by
  obtain ⟨values, hvalues, hplace⟩ := Option.bind_eq_some_iff.1 h
  have hset : (s.setGlobal home i v).globals[other.index]? =
      some (if home.index = other.index then values.set i v else values) := by
    rw [Store.setGlobal, Array.getElem?_modify, hvalues]
    split <;> rfl
  by_cases hhome : other = home
  · subst hhome
    rw [if_pos rfl] at hset
    by_cases hij : j = i
    · subst hij
      rw [if_pos ⟨rfl, rfl⟩]
      refine Option.bind_eq_some_iff.2 ⟨_, hset, ?_⟩
      exact List.getElem?_set_self (List.getElem?_eq_some_iff.1 hplace).1
    · rw [if_neg fun h => hij h.2]
      exact Option.bind_eq_some_iff.2 ⟨_, hset, by rwa [List.getElem?_set_ne (Ne.symm hij)]⟩
  · rw [if_neg fun heq => hhome (by cases home; cases other; exact congrArg ModuleId.mk heq.symm)]
      at hset
    rw [if_neg fun h => hhome h.1]
    exact Option.bind_eq_some_iff.2 ⟨_, hset, hplace⟩

/-- A global that is given a value of its type leaves the others as they are. -/
theorem Interface.Keeps.setGlobal {s : Store} (h : P.Keeps s) {i : Nat} {t : Ty} {v : Value}
    (ht : P.global home i = some t) (hv : StandsFor P.laxity P.layouts v t) :
    P.Keeps (s.setGlobal home i v) := by
  refine ⟨by rw [Store.setGlobal, Array.size_modify, h.size], fun other j u hu => ?_⟩
  obtain ⟨w, hw, hstands⟩ := h.value other j u hu
  refine ⟨_, Store.global?_setGlobal hw home i v, ?_⟩
  split
  · rename_i heq
    obtain ⟨rfl, rfl⟩ := heq
    cases ht.symm.trans hu
    exact hv
  · exact hstands

/-! ## The functions of the host -/

theorem Native.run_ends {I : Store → Prop} (hI : Run.OfGlobals I) (op : Native) {args : List Value}
    (hlen : args.length = op.arity) :
    Run.Ends I (StandsFor P.laxity P.layouts · op.result) (op.run args) := by
  have hone : op.arity = 1 → ∃ v, args = [v] := fun h => List.length_eq_one_iff.1 (hlen.trans h)
  have hthree : op.arity = 3 → ∃ u v w, args = [u, v, w] := fun h =>
    List.length_eq_three.1 (hlen.trans h)
  have hunit : StandsFor P.laxity P.layouts .unit .unit := .inl rfl
  have hprint : ∀ text, Run.Ends I (fun _ => True) (modify (·.print text)) := fun text =>
    .modify fun s hs => hI s _ rfl hs
  cases op with
  | malloc =>
    obtain ⟨size, rfl⟩ := hone rfl
    refine (Run.Ends.lift size.asInt_orderly).bind fun n _ => ?_
    exact (hI.allocate _).bind fun addr _ => .pure trivial
  | free =>
    obtain ⟨ptr, rfl⟩ := hone rfl
    refine (Run.Ends.lift ptr.asAddress_orderly).bind fun addr _ => ?_
    exact (hI.updateHeap fun h => h.release_orderly addr).bind fun _ _ => .pure hunit
  | memcpy =>
    obtain ⟨dst, src, len, rfl⟩ := hthree rfl
    refine (Run.Ends.lift dst.asAddress_orderly).bind fun d _ => ?_
    refine (Run.Ends.lift src.asAddress_orderly).bind fun s _ => ?_
    refine (Run.Ends.lift len.asInt_orderly).bind fun n _ => ?_
    exact (hI.updateHeap fun h => h.copy_orderly d _ s).bind fun _ _ => .pure hunit
  | memset =>
    obtain ⟨dst, byte, len, rfl⟩ := hthree rfl
    refine (Run.Ends.lift dst.asAddress_orderly).bind fun d _ => ?_
    refine (Run.Ends.lift byte.asInt_orderly).bind fun b _ => ?_
    refine (Run.Ends.lift len.asInt_orderly).bind fun n _ => ?_
    exact (hI.updateHeap fun h => h.fill_orderly d _ _).bind fun _ _ => .pure hunit
  | panic =>
    obtain ⟨message, rfl⟩ := hone rfl
    exact (Run.Ends.lift message.asText_orderly).bind fun text _ => .throw trivial
  | print =>
    obtain ⟨message, rfl⟩ := hone rfl
    refine (Run.Ends.lift message.asText_orderly).bind fun text _ => ?_
    exact (hprint text).bind fun _ _ => .pure hunit
  | printInt =>
    obtain ⟨value, rfl⟩ := hone rfl
    refine (Run.Ends.lift value.asInt_orderly).bind fun n _ => ?_
    exact (hprint _).bind fun _ _ => .pure hunit
  | sleepMs =>
    obtain ⟨millis, rfl⟩ := hone rfl
    have hdiscard : Run.Ends I (fun _ => True) (discard (Run.lift millis.asInt)) :=
      (Run.Ends.lift millis.asInt_orderly).bind fun _ _ => .pure trivial
    exact hdiscard.bind fun _ _ => .pure hunit

/-! ## Parts of code -/

/-- A value that stands for the type, and a frame in which those slots were assigned. -/
def Yields (P : Interface) (slots : List Ty) (t : Ty) (B : Assigned) (p : Value × Frame) : Prop :=
  StandsFor P.laxity P.layouts p.1 t ∧ Holds P slots B p.2

/-- Typed code is run as its type says. -/
def Evaluator.Sound (P : Interface) (home : ModuleId) (slots : List Ty) (ev : Evaluator) : Prop :=
  ∀ ⦃A B : Assigned⦄ ⦃c : Code⦄ ⦃t : Ty⦄ ⦃fr : Frame⦄, HasType P home slots A c t B →
    Holds P slots A fr → Run.Ends P.Keeps (Yields P slots t B) (ev c fr)

namespace Evaluator.Sound

variable {ev : Evaluator} (hev : ev.Sound P home slots) {A B D : Assigned} {fr : Frame}

include hev

theorem evalAll : ∀ {A B : Assigned} {cs : List Code} {ts : List Ty} {fr : Frame},
    HasTypes P home slots A cs ts B → Holds P slots A fr →
      Run.Ends P.Keeps (fun p => AllStandFor P.laxity P.layouts p.1 ts ∧ Holds P slots B p.2)
        (Kiln.evalAll ev cs fr)
  | _, _, _, _, _, .nil, hfr => .pure ⟨trivial, hfr⟩
  | _, _, _, _, _, .cons h hs, hfr => by
    refine (hev h hfr).bind fun ⟨v, fr⟩ ⟨hv, hfr⟩ => ?_
    exact (evalAll hs hfr).bind fun ⟨vs, fr⟩ ⟨hvs, hfr⟩ => .pure ⟨⟨hv, hvs⟩, hfr⟩

theorem evalBlock : ∀ {A B : Assigned} {cs : List Code} {ts : List Ty} {fr : Frame} {t : Ty}
    {last : Value}, HasTypes P home slots A cs ts B → Holds P slots A fr →
      StandsFor P.laxity P.layouts last t →
        Run.Ends P.Keeps (Yields P slots (ts.getLastD t) B) (Kiln.evalBlock ev last cs fr)
  | _, _, _, _, _, _, _, .nil, hfr, hlast => .pure ⟨hlast, hfr⟩
  | _, _, _, _, _, _, _, .cons h hs, hfr, _ => by
    refine (hev h hfr).bind fun ⟨v, fr⟩ ⟨hv, hfr⟩ => ?_
    rw [List.getLastD_cons]
    exact evalBlock hs hfr hv

theorem evalTest {c : Code} {t : Ty} (h : HasType P home slots A c t B) (hfr : Holds P slots A fr) :
    Run.Ends P.Keeps (fun p => Holds P slots B p.2) (Kiln.evalTest ev c fr) := by
  refine (hev h hfr).bind fun ⟨v, fr⟩ ⟨_, hfr⟩ => ?_
  exact (Run.Ends.lift v.asBool_orderly).bind fun b _ => .pure hfr

/-- The test is made once at least, so that what it assigns is assigned behind the loop. Before each
further turn at least as much is assigned as before the first. -/
theorem evalLoop {c body : Code} {t u : Ty} (h : HasType P home slots A c t B)
    (h' : HasType P home slots B body u D) : ∀ (n : Nat) {fr : Frame}, Holds P slots A fr →
      Run.Ends P.Keeps (Holds P slots B) (Kiln.evalLoop ev c body n fr)
  | 0, _, _ => .throw fun h => by cases h
  | n + 1, fr, hfr => by
    refine (hev.evalTest h hfr).bind fun ⟨go, fr⟩ hfr => ?_
    cases go with
    | false => exact .pure hfr
    | true =>
      refine (hev h' hfr).bind fun ⟨_, fr⟩ ⟨_, hfr⟩ => ?_
      exact evalLoop h h' n (hfr.mono (h.subset.trans h'.subset))

end Evaluator.Sound

/-! ## Code and functions -/

variable (hP : P.Describes lib)

include hP

/-- **A call of a function gives what its type says**, where code is run as its type says. -/
theorem Interface.Describes.invoke {run : ModuleId → Evaluator}
    (hrun : ∀ home slots, (run home).Sound P home slots) {handle : FunctionHandle}
    {params : List Ty} {result : Ty} (hf : P.function handle = some (params, result))
    {args : List Value} (hargs : AllStandFor P.laxity P.layouts args params) :
    Run.Ends P.Keeps (StandsFor P.laxity P.layouts · result) (Kiln.invoke lib run handle args) := by
  obtain ⟨f, hfind, rfl, rfl, htyped⟩ := hP.function handle params result hf
  refine (Run.Ends.present (Q := (· = f)) hfind rfl).bind fun g hg => ?_
  subst hg
  have hlen : args.length = g.params.length := by rw [hargs.length_eq, List.length_map]
  rw [if_neg (not_not.2 hlen)]
  unfold Function.Typed at htyped
  split at htyped
  · rename_i n c hbody
    obtain ⟨slots, A, t, B, hslots, hparams, hA, hcode, hassign⟩ := htyped
    rw [hbody]
    refine (hrun _ _ hcode (.start hslots hparams hargs hA)).bind fun ⟨v, _⟩ ⟨hv, _⟩ => ?_
    exact .pure (hv.assign hassign)
  · rename_i op hbody
    rw [hbody, htyped.2]
    exact op.run_ends P.ofGlobals_keeps (hlen.trans htyped.1)

/-- **Typed code runs as its type says**, at any depth. -/
theorem Interface.Describes.eval : ∀ (depth : Nat) (home : ModuleId) (slots : List Ty),
    (Kiln.eval lib depth home).Sound P home slots
  | 0, _, _ => fun _ _ _ _ _ _ _ => .throw trivial
  | depth + 1, home, slots => by
    have hrun : ∀ home slots, (Kiln.eval lib depth home).Sound P home slots := eval depth
    intro A B c t fr h hfr
    have hev := hrun home slots
    unfold Kiln.eval
    cases h with
    | const hv => exact .pure ⟨hv.standsFor, hfr⟩
    | getLocal ht hA =>
      obtain ⟨v, hv, hstands⟩ := hfr.slot _ hA _ ht
      exact (Run.Ends.present hv hstands).bind fun v hv => .pure ⟨hv, hfr⟩
    | setLocal ht hc hassign =>
      refine (hev hc hfr).bind fun ⟨v, fr⟩ ⟨hv, hfr⟩ => ?_
      dsimp only at hfr ⊢
      rw [if_pos (hfr.length ▸ (List.getElem?_eq_some_iff.1 ht).1)]
      exact .pure ⟨.inl rfl, hfr.set ht (hv.assign hassign)⟩
    | getGlobal ht =>
      refine .get fun s hs => ?_
      obtain ⟨v, hv, hstands⟩ := hs.value _ _ _ ht
      exact (Run.Ends.present hv hstands).bind fun v hv => .pure ⟨hv, hfr⟩
    | setGlobal ht hc hassign =>
      refine (hev hc hfr).bind fun ⟨v, fr⟩ ⟨hv, hfr⟩ => ?_
      refine (Run.Ends.modify fun s hs => hs.setGlobal ht (hv.assign hassign)).bind fun _ _ => ?_
      exact .pure ⟨.inl rfl, hfr⟩
    | foreignGlobal ht =>
      refine .get fun s hs => ?_
      obtain ⟨v, hv, hstands⟩ := hs.value _ _ _ ht
      exact (Run.Ends.present hv hstands).bind fun v hv => .pure ⟨hv, hfr⟩
    | block hcs => exact hev.evalBlock hcs hfr (.inl rfl)
    | branch hc hyes hno hjoins =>
      refine (hev.evalTest hc hfr).bind fun ⟨go, fr⟩ hfr => ?_
      cases go with
      | true => exact (hev hyes hfr).imp fun p hp => ⟨hjoins.left hp.1, hp.2.mono hyes.subset⟩
      | false => exact (hev hno hfr).imp fun p hp => ⟨hjoins.right hp.1, hp.2.mono hno.subset⟩
    | when hc hyes hjoins =>
      refine (hev.evalTest hc hfr).bind fun ⟨go, fr⟩ hfr => ?_
      cases go with
      | true => exact (hev hyes hfr).imp fun p hp => ⟨hjoins.left hp.1, hp.2.mono hyes.subset⟩
      | false => exact .pure ⟨hjoins.right (.inl rfl), hfr⟩
    | loop hc hbody =>
      exact (hev.evalLoop hc hbody patience hfr).bind fun fr hfr => .pure ⟨.inl rfl, hfr⟩
    | @binary _ _ _ op _ _ _ _ t hleft hright ht =>
      refine (hev hleft hfr).bind fun ⟨v, fr⟩ ⟨_, hfr⟩ => ?_
      refine (hev hright hfr).bind fun ⟨w, fr⟩ ⟨_, hfr⟩ => ?_
      exact (Run.Ends.lift (apply_ends op v w ht)).bind fun _ hv => .pure ⟨hv, hfr⟩
    | not hc =>
      refine (hev.evalTest hc hfr).bind fun ⟨b, fr⟩ hfr => ?_
      exact .pure ⟨trivial, hfr⟩
    | and hleft hright =>
      refine (hev.evalTest hleft hfr).bind fun ⟨go, fr⟩ hfr => ?_
      cases go with
      | false => exact .pure ⟨trivial, hfr⟩
      | true =>
        refine (hev.evalTest hright hfr).bind fun ⟨b, fr⟩ hfr => ?_
        exact .pure ⟨trivial, hfr.mono hright.subset⟩
    | or hleft hright =>
      refine (hev.evalTest hleft hfr).bind fun ⟨go, fr⟩ hfr => ?_
      cases go with
      | true => exact .pure ⟨trivial, hfr⟩
      | false =>
        refine (hev.evalTest hright hfr).bind fun ⟨b, fr⟩ hfr => ?_
        exact .pure ⟨trivial, hfr.mono hright.subset⟩
    | @call _ _ callee _ _ _ _ hf hargs hassign =>
      refine (hev.evalAll hargs hfr).bind fun ⟨vs, fr⟩ ⟨hvs, hfr⟩ => ?_
      have hcall := hP.invoke hrun hf (hassign.allStandFor hvs)
      cases callee with
      | own i => exact hcall.bind fun v hv => .pure ⟨hv, hfr⟩
      | foreign other i => exact hcall.bind fun v hv => .pure ⟨hv, hfr⟩
    | fieldPtr hc =>
      refine (hev hc hfr).bind fun ⟨v, fr⟩ ⟨_, hfr⟩ => ?_
      exact (Run.Ends.lift v.asPtr_orderly).bind fun _ _ => .pure ⟨trivial, hfr⟩
    | fieldGet hc hl hf =>
      refine (hev hc hfr).bind fun ⟨v, fr⟩ ⟨hv, hfr⟩ => ?_
      exact (Run.Ends.lift (hv.fieldAt hl hf)).bind fun _ hw => .pure ⟨hw, hfr⟩
    | make hl hcs hassign =>
      refine (hev.evalAll hcs hfr).bind fun ⟨vs, fr⟩ ⟨hvs, hfr⟩ => ?_
      exact .pure ⟨⟨rfl, _, hl, hassign.allStandFor hvs⟩, hfr⟩
    | load hc =>
      refine (hev hc hfr).bind fun ⟨v, fr⟩ ⟨_, hfr⟩ => ?_
      refine (Run.Ends.lift v.asPtr_orderly).bind fun addr _ => ?_
      rw [← hP.layouts]
      refine .get fun s _ => ?_
      refine (Run.Ends.lift (s.heap.read_orderly _ _)).bind fun bytes _ => ?_
      exact (Run.Ends.lift (decode_ends bytes)).bind fun _ hw => .pure ⟨hw, hfr⟩
    | @store _ _ _ _ _ _ t _ hplace hvalue =>
      refine (hev hplace hfr).bind fun ⟨p, fr⟩ ⟨_, hfr⟩ => ?_
      refine (hev hvalue hfr).bind fun ⟨v, fr⟩ ⟨_, hfr⟩ => ?_
      refine (Run.Ends.lift (v.encode_orderly _ t)).bind fun bytes _ => ?_
      refine (Run.Ends.lift p.asPtr_orderly).bind fun addr _ => ?_
      refine (P.ofGlobals_keeps.updateHeap fun h => h.write_orderly _ bytes).bind fun _ _ => ?_
      exact .pure ⟨.inl rfl, hfr⟩
    | cast hc hcast =>
      refine (hev hc hfr).bind fun ⟨v, fr⟩ ⟨hv, hfr⟩ => ?_
      exact (Run.Ends.lift (hv.cast hcast)).bind fun _ hw => .pure ⟨hw, hfr⟩
    | offset hplace hcount =>
      refine (hev hplace hfr).bind fun ⟨p, fr⟩ ⟨_, hfr⟩ => ?_
      refine (hev hcount hfr).bind fun ⟨n, fr⟩ ⟨_, hfr⟩ => ?_
      refine (Run.Ends.lift n.asInt_orderly).bind fun k _ => ?_
      exact (Run.Ends.lift p.asPtr_orderly).bind fun _ _ => .pure ⟨trivial, hfr⟩
    | addr hc =>
      refine (hev hc hfr).bind fun ⟨v, fr⟩ ⟨_, hfr⟩ => ?_
      exact (Run.Ends.lift v.asPtr_orderly).bind fun _ _ => .pure ⟨trivial, hfr⟩
    | seqLit hcs =>
      refine (hev.evalAll hcs hfr).bind fun ⟨vs, fr⟩ ⟨_, hfr⟩ => ?_
      rw [← hP.layouts]
      exact (Run.Ends.lift (ofItems_ends vs)).bind fun _ hw => .pure ⟨hw, hfr⟩
    | seqLen hc =>
      refine (hev hc hfr).bind fun ⟨v, fr⟩ ⟨_, hfr⟩ => ?_
      exact (Run.Ends.lift v.asSeq_orderly).bind fun _ _ => .pure ⟨trivial, hfr⟩
    | seqCopy hplace hseq =>
      refine (hev hplace hfr).bind fun ⟨p, fr⟩ ⟨_, hfr⟩ => ?_
      refine (hev hseq hfr).bind fun ⟨v, fr⟩ ⟨_, hfr⟩ => ?_
      refine (Run.Ends.lift p.asPtr_orderly).bind fun addr _ => ?_
      refine (Run.Ends.lift v.asSeq_orderly).bind fun seq _ => ?_
      refine (P.ofGlobals_keeps.updateHeap fun h => h.write_orderly _ _).bind fun _ _ => ?_
      exact .pure ⟨.inl rfl, hfr⟩

/-- Code that takes no arguments gives a value of its type. -/
theorem Interface.Describes.evaluate {t : Ty} {n : Nat} {c : Code} (h : c.Takes P home [] t n) :
    Run.Ends P.Keeps (StandsFor P.laxity P.layouts · t) (Kiln.evaluate lib home n c) := by
  obtain ⟨slots, A, u, B, hslots, hparams, hA, hcode, hassign⟩ := h
  have hfr : Holds P slots A (List.replicate n .unit) :=
    Holds.start hslots hparams (show AllStandFor P.laxity P.layouts [] [] from trivial) hA
  exact (hP.eval maxDepth home slots hcode hfr).bind fun ⟨v, _⟩ ⟨hv, _⟩ => .pure (hv.assign hassign)

/-- **A call with arguments of the parameters' types ends in an orderly way**, or gives a value of
the type of the function's result. -/
theorem Interface.Describes.call {handle : FunctionHandle} {params : List Ty} {result : Ty}
    (hf : P.function handle = some (params, result)) {args : List Value}
    (hargs : AllStandFor P.laxity P.layouts args params) :
    Run.Ends P.Keeps (StandsFor P.laxity P.layouts · result) (Kiln.call lib handle args) :=
  hP.invoke (fun home slots => hP.eval maxDepth home slots) hf hargs

end Kiln
