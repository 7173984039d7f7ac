import Kiln.Proofs.Container.Keeping
/-!
# Owners are counted

A block lives exactly as long as the books say that it has an owner. The invariant is that the heap
keeps the books (`Books.Kept`): its blocks are those of the books, and each account's block holds
the number of its owners but one, and its payload. Each event that the books permit is answered as
they expect it and keeps them (`Wraps.step`), so the same holds after any run (`Trace.kept`), of any
wrapper that could be declared (`Work.declareWrapper_counts_owners`).
-/

namespace Kiln

open Blueprint Source

variable {h h' : Heap} {a : Account} {b : Books}

/-- What lies in the blocks of a wrapper: a payload, which is what the block was made for if nothing
else was stored. -/
def Wrapper.kind (W : Wrapper) : BlockKind where
  room _ := W.room
  spells content bytes := bytes.length = W.payloadSize ∧ ∀ v ∈ content,
    Value.decode W.library.layouts W.payload bytes = .ok (v.stored W.library.layouts W.payload)

/-! ## Events -/

/-- The event ends for lack of room, or is answered as the books expect it and keeps them. -/
def Books.Goes (b : Books) (W : Wrapper) (lib : Library) (depth : Nat) (s : Store)
    (e : Event) : Prop :=
  (e.run W lib depth).OutOfRoom s ∨ ∃ answer s', e.run W lib depth s = .ok answer s' ∧
    b.Expects W lib e answer ∧ (b.record e answer).Kept W.kind s'.heap

/-- **What other code does with its own blocks** is none of the owners' business. -/
theorem Books.Kept.goes_request {W : Wrapper} {s : Store} (hk : b.Kept W.kind s.heap)
    {lib : Library} (depth : Nat) {r : Request} (hp : b.Permits W lib (.request r)) :
    b.Goes W lib depth s (.request r) :=
  (hk.run_request hp.1 hp.2).imp_right fun ⟨reply, _, hrun, hkept⟩ =>
    ⟨.reply reply, _, hrun, trivial, hkept⟩

namespace Wraps

variable {lib : Library} {name : String} {inner payload : Tree} {m : Module}
  (hw : Wraps lib name inner payload m)

/-- The wrapper that a module is of. -/
def wrapper (lib : Library) (name : String) (inner payload : Tree) (m : Module) : Wrapper :=
  ⟨lib.push m, m, name, (scenery lib name inner payload).typeOf payload⟩

include hw

theorem handle_eq (addr : UInt64) : (wrapper lib name inner payload m).handle addr =
    handleAt lib name addr (.struct (blockRef lib name)) := by
  rw [Wrapper.handle, Wrapper.block, wrapper, hw.id]

theorem room_eq : (wrapper lib name inner payload m).room = room lib name inner payload m := by
  rw [Wrapper.room, Wrapper.block, wrapper, hw.id, hw.size_block (find?_push_nextId lib m), room]

section Later

variable {later : Library} (hgrows : (lib.push m).Grows later)

include hgrows

/-- What bytes spell as a payload, and what is stored of one, stay the same in later libraries. -/
theorem decode_eq (content : List UInt8) :
    Value.decode later.layouts ((scenery lib name inner payload).typeOf payload) content =
      Value.decode (lib.push m).layouts
        ((scenery lib name inner payload).typeOf payload) content := by
  have hnow := find?_push_nextId lib m
  obtain ⟨hfits, -⟩ := hw.fits_payload hnow
  rw [Value.decode, Value.decode, Value.decodeWithin_eq hgrows.layouts content hfits
    (hw.two_le_count (hgrows _ _ hnow)), Value.decodeWithin_eq (fun _ _ hl => hl) content hfits
    (hw.two_le_count hnow)]

theorem stored_eq (v : Value) :
    v.stored later.layouts ((scenery lib name inner payload).typeOf payload) =
      v.stored (lib.push m).layouts ((scenery lib name inner payload).typeOf payload) :=
  Value.stored_eq hgrows.layouts (hw.fits_payload (find?_push_nextId lib m)).1

/-- Any bytes can be read as a payload, if there are as many as one takes. -/
theorem decode_ok {content : List UInt8}
    (hlength : content.length = (wrapper lib name inner payload m).payloadSize) :
    ∃ v, Value.decode later.layouts ((scenery lib name inner payload).typeOf payload) content =
      .ok v := by
  have hnow := find?_push_nextId lib m
  obtain ⟨hfits, -⟩ := hw.fits_payload hnow
  rw [Value.decode, Value.decodeWithin_eq hgrows.layouts content hfits
    (hw.two_le_count (hgrows _ _ hnow))]
  exact Value.decodeWithin_ok hfits hlength

end Later

section Events

variable {later : Library} (hgrows : (lib.push m).Grows later) {s : Store}
  (hk : b.Kept (wrapper lib name inner payload m).kind s.heap) (depth : Nat)

include hgrows hk

/-- **A block is made for a value.** -/
theorem goes_new {v : Value} (hp : b.Permits (wrapper lib name inner payload m) later (.new v)) :
    b.Goes (wrapper lib name inner payload m) later depth s (.new v) := by
  have hlater := hgrows _ _ (find?_push_nextId lib m)
  have hbase := hgrows _ _ (lib.grows_push m _ _ hw.base)
  rcases hw.new_ok hlater hk.sound depth hbase hp with
    hout | ⟨addr, h', content, hcall, hs', hlive, hkeeps, hfresh, hblock, hlength, hdecode⟩
  · exact .inl hout.bind
  · refine .inr ⟨.value _, _, Run.bind_ok hcall, ⟨addr, by rw [hw.handle_eq]⟩, ?_⟩
    rw [← hw.room_eq] at hlive hblock
    refine hk.opened hs' hlive (fun e he => hkeeps e he (hfresh e he)) hblock ?_
      ⟨hlength, fun u hu => ?_⟩
    · show 8 + content.length ≤ (wrapper lib name inner payload m).room
      rw [hlength, hw.room_eq]
      exact hw.payload_le_room
    · cases hu
      exact (hw.decode_eq hgrows content).symm.trans
        (hdecode.trans (by rw [hw.stored_eq hgrows]; rfl))

/-- **A block gets one more owner.** -/
theorem goes_duplicate {addr : UInt64}
    (hp : b.Permits (wrapper lib name inner payload m) later (.duplicate addr)) :
    b.Goes (wrapper lib name inner payload m) later depth s (.duplicate addr) := by
  have hlater := hgrows _ _ (find?_push_nextId lib m)
  obtain ⟨a, ha, rfl, hfew⟩ := hp
  have hcall := hw.call_duplicate hlater hk ha depth (t := .struct (blockRef lib name)) hfew
  rw [← hw.handle_eq] at hcall
  rcases hcall with hout | ⟨h', hcall, -, hkept⟩
  · exact .inl hout.bind
  · exact .inr ⟨.value _, _, Run.bind_ok hcall, rfl, hkept⟩

/-- **A block loses an owner**, and is given back with the last one. -/
theorem goes_release {addr : UInt64}
    (hp : b.Permits (wrapper lib name inner payload m) later (.release addr)) :
    b.Goes (wrapper lib name inner payload m) later depth s (.release addr) := by
  have hlater := hgrows _ _ (find?_push_nextId lib m)
  have hbase := hgrows _ _ (lib.grows_push m _ _ hw.base)
  obtain ⟨a, ha, rfl⟩ := hp
  have hcall := hw.call_release hlater hk ha depth (t := .struct (blockRef lib name)) hbase
  rw [← hw.handle_eq] at hcall
  rcases hcall with hout | ⟨h', hcall, -, hkept⟩
  · exact .inl hout.bind
  · exact .inr ⟨.value _, _, Run.bind_ok hcall, rfl, hkept⟩

/-- **A block tells how many owners it has.** -/
theorem goes_count {addr : UInt64}
    (hp : b.Permits (wrapper lib name inner payload m) later (.count addr)) :
    b.Goes (wrapper lib name inner payload m) later depth s (.count addr) := by
  have hlater := hgrows _ _ (find?_push_nextId lib m)
  obtain ⟨a, ha, rfl⟩ := hp
  have hcall := hw.call_count hlater hk ha depth (t := .struct (blockRef lib name))
  rw [← hw.handle_eq] at hcall
  rcases hcall with hout | ⟨n, hcall, hn⟩
  · exact .inl hout.bind
  · exact .inr ⟨.value _, _, Run.bind_ok hcall, ⟨a, ha, rfl, _, rfl, hn⟩, hk⟩

/-- **A payload is read** as it was stored, unless something else was stored since. -/
theorem goes_load {addr : UInt64}
    (hp : b.Permits (wrapper lib name inner payload m) later (.load addr)) :
    b.Goes (wrapper lib name inner payload m) later depth s (.load addr) := by
  have hlater := hgrows _ _ (find?_push_nextId lib m)
  obtain ⟨a, ha, rfl⟩ := hp
  obtain ⟨-, -, content, hblock, hroom, hlength, hcontent⟩ := hk.accounts a ha
  have hcall := @deref_ok _ _ _ _ _ hw _ hlater s depth a.addr (.struct (blockRef lib name))
  rw [← hw.handle_eq] at hcall
  rcases hcall with hout | hcall
  · exact .inl hout.bind
  · obtain ⟨v, hv⟩ := hw.decode_ok hgrows hlength
    have hread : readAt later.layouts _ (.ptr (a.addr + 8)
        ((scenery lib name inner payload).typeOf payload)) s = .ok v s :=
      hblock.read_payload hk.sound hroom
        (by rw [hw.payloadSize_eq hlater, hlength]; rfl) hv
    refine .inr
      ⟨.value v, s, (Run.bind_ok hcall).trans (Run.bind_ok hread), ⟨a, ha, rfl, fun u hu => ?_⟩, hk⟩
    have hstored := (hw.decode_eq hgrows content).trans (hcontent u hu)
    rw [hv] at hstored
    cases hstored
    exact congrArg Answer.value (hw.stored_eq hgrows u).symm

/-- **Bytes are stored through a pointer** into the payload, and into nothing else. -/
theorem goes_store {addr : UInt64} {offset : Nat} {bytes : List UInt8}
    (hp : b.Permits (wrapper lib name inner payload m) later (.store addr offset bytes)) :
    b.Goes (wrapper lib name inner payload m) later depth s (.store addr offset bytes) := by
  have hlater := hgrows _ _ (find?_push_nextId lib m)
  obtain ⟨⟨a, ha, rfl⟩, hin⟩ := hp
  obtain ⟨howned, hfew, content, hblock, hroom, hlength, -⟩ := hk.accounts a ha
  have hcall := @deref_ok _ _ _ _ _ hw _ hlater s depth a.addr (.struct (blockRef lib name))
  rw [← hw.handle_eq] at hcall
  rcases hcall with hout | hcall
  · exact .inl hout.bind
  · rw [← hlength] at hin
    obtain ⟨h', hwrite, hs', hlive, hkeeps, hblock'⟩ := hblock.write_payload hk.sound hroom hin
    refine .inr ⟨.value .unit, { s with heap := h' }, (Run.bind_ok hcall).trans
      (Run.bind_ok (Run.updateHeap_ok hwrite)), trivial, ?_⟩
    show Books.Kept _ h' (b.update a.addr fun a => { a with content := none })
    refine hk.update ha hs' hlive hkeeps (fun _ => rfl) (fun _ => rfl)
      ⟨howned, hfew, _, hblock', ?_, ?_, fun _ hu => ?_⟩
    · rw [length_splice hin]
      exact hroom
    · rw [length_splice hin, hlength]
    · cases hu

/-- **Every event that the books permit is answered as they expect it, and keeps them.** -/
theorem step {e : Event} (hp : b.Permits (wrapper lib name inner payload m) later e) :
    b.Goes (wrapper lib name inner payload m) later depth s e := by
  cases e with
  | new v => exact hw.goes_new hgrows hk depth hp
  | duplicate addr => exact hw.goes_duplicate hgrows hk depth hp
  | release addr => exact hw.goes_release hgrows hk depth hp
  | count addr => exact hw.goes_count hgrows hk depth hp
  | load addr => exact hw.goes_load hgrows hk depth hp
  | store addr offset bytes => exact hw.goes_store hgrows hk depth hp
  | request r => exact hk.goes_request depth hp
  | elsewhere globals output =>
    exact .inr ⟨.value .unit, { s with globals, output }, rfl, trivial, hk⟩

end Events

end Wraps

/-! ## Runs -/

/-- **The heap keeps the books of every run.** -/
theorem Trace.kept {lib : Library} {name : String} {inner payload : Tree} {m : Module}
    (hw : Wraps lib name inner payload m) {s s' : Store} {trace : List (Turn × Answer)}
    {b b' : Books} (htrace : Trace (Wraps.wrapper lib name inner payload m) s b trace s' b') :
    b.Kept (Wraps.wrapper lib name inner payload m).kind s.heap →
      b'.Kept (Wraps.wrapper lib name inner payload m).kind s'.heap := by
  induction htrace with
  | nil => exact fun hk => hk
  | cons hallowed hrun _ ih =>
    intro hk
    refine ih ?_
    rcases hw.step hallowed.1 hk _ hallowed.2 with hout | ⟨answer, s₁, hok, -, hkept⟩
    · exact absurd hrun hout.ne_ok
    · rw [Turn.run, hok] at hrun
      cases hrun
      exact hkept

/-- What a store has in common with the books of the run that it comes from, now and after the next
turn. -/
structure Wrapper.Shows (W : Wrapper) (s : Store) (b : Books) : Prop where
  /-- The blocks in use are those of the books, -/
  live : s.heap.live.Perm (b.blocks W)
  /-- which are not in each other's way. -/
  apart : ((b.blocks W).map (·.addr)).Nodup
  /-- Every account has an owner. -/
  owned : ∀ a ∈ b.accounts, 0 < a.owners
  /-- A turn that is allowed is answered as the books expect it, unless there is no room for it. -/
  next : ∀ t : Turn, t.Allowed W b → (t.run W).OutOfRoom s ∨
    ∃ answer s', t.run W s = .ok answer s' ∧ b.Expects W t.library t.event answer ∧
      s'.heap.live.Perm ((b.record t.event answer).blocks W)

/-- A turn that was taken was answered as the books expect it. -/
theorem Wrapper.Shows.expects {W : Wrapper} {s s' : Store} {b : Books} (h : W.Shows s b) {t : Turn}
    {answer : Answer} (hallowed : t.Allowed W b) (hrun : t.run W s = .ok answer s') :
    b.Expects W t.library t.event answer := by
  rcases h.next t hallowed with hout | ⟨_, _, hok, hexpects, -⟩
  · exact absurd hrun hout.ne_ok
  · cases hrun.symm.trans hok
    exact hexpects

/-- **A block lives exactly as long as it has an owner.** Whatever was done with the handles of a
wrapper that could be declared, and by other code with blocks of its own, the blocks in use are
those that have owners and those of others. No call fails, counting tells how many owners there are,
and a payload is read as it was stored. -/
theorem Work.declareWrapper_counts_owners {name : String} {inner : Fragment} {m : Module}
    {w w' : Workspace} (h : (Work.declareWrapper name inner).run w = .ok (.ok m) w')
    (hbase : w.library.find? ⟨0⟩ = some Module.base) (hbound : Container.Bounded inner.root) :
    ∃ payload, (∃ f ∈ m.functions, f.name = name ++ "_new" ∧ f.params = [("value", payload)]) ∧
      ∀ {s s' : Store} {trace : List (Turn × Answer)} {b : Books}, s.heap.Sound →
        Trace ⟨w'.library, m, name, payload⟩ s ⟨[], s.heap.live⟩ trace s' b →
        Wrapper.Shows ⟨w'.library, m, name, payload⟩ s' b := by
  obtain ⟨hlibrary, ⟨definition, _⟩, ⟨payload, _⟩, -, hw⟩ := declareWrapper_wraps h hbase hbound
  obtain ⟨f, hf, hname, hparams, -⟩ := hw.signature (f := Wraps.newFun name
    (.struct (Wraps.selfRef w.library name))
      ((Wraps.scenery w.library name definition payload).typeOf payload)) List.mem_cons_self
  refine ⟨_, ⟨f, hf, hname, hparams⟩, fun hs htrace => ?_⟩
  rw [hlibrary] at htrace ⊢
  have hk := htrace.kept hw (Books.kept_nil _ hs)
  refine ⟨hk.live, hk.nodup_addrs, fun a ha => hk.owners_pos ha, fun t ht => ?_⟩
  refine (hw.step ht.1 hk t.depth ht.2).imp_right fun ⟨answer, s₁, hok, hexpects, hkept⟩ => ?_
  exact ⟨answer, s₁, hok, hexpects, hkept.live⟩

/-- A struct of two fields, of which the first keeps eight bits alone. -/
def pairFragment : Fragment :=
  ⟨list [word "struct", word "pair", list [word "low", word "u8"], list [word "high", word "i64"]],
    ⟨"pair", ""⟩⟩

/-- A pair of two numbers. -/
def pairValue (m : Module) (low high : Int64) : Value :=
  .struct ⟨m.id, "pair"⟩ [.int low, .int high]

section Pairs

variable {Γ : Layouts} {m : Module} {l : Layout} (hl : Γ.find? ⟨m.id, "pair"⟩ = some l)
  (htypes : l.fields.map (·.type) = [.u8, .i64]) (low high : Int64)

include hl htypes

theorem conforms_pairValue : (pairValue m low high).Conforms Γ (.struct ⟨m.id, "pair"⟩) := by
  refine ⟨rfl, l, hl, ?_⟩
  rw [htypes]
  exact ⟨trivial, trivial, trivial⟩

/-- Of the first number a pair in memory has eight bits. -/
theorem stored_pairValue : (pairValue m low high).stored Γ (.struct ⟨m.id, "pair"⟩) =
    pairValue m (.ofNat (low.toUInt64.toNat % 256)) high := by
  simp only [pairValue, Value.stored, hl, Option.map_some, Option.getD_some, htypes,
    Value.storedAll]

end Pairs

/-- The wrapper around pairs. -/
def pairWrapper (w : Workspace) (m : Module) : Wrapper :=
  ⟨w.library, m, "rc", .struct ⟨m.id, "pair"⟩⟩

/-- The life of a block: it gets a second owner, is counted and read, and both owners let go of
it. -/
def pairLife (m : Module) : List Event :=
  [.new (pairValue m 300 7), .duplicate 16, .count 16, .load 16, .release 16,
    .count 16, .release 16]

/-- Whether the first answer is the handle of the first block. -/
def isFirstHandle : List Answer → Bool
  | .value (.struct _ [.ptr addr _]) :: _ => addr == 16
  | _ => false

theorem exists_of_isFirstHandle {answers : List Answer} (h : isFirstHandle answers = true) :
    ∃ ref target rest, answers = .value (.struct ref [.ptr 16 target]) :: rest := by
  unfold isFirstHandle at h
  split at h
  · cases beq_iff_eq.1 h
    exact ⟨_, _, _, rfl⟩
  · cases h

/-- Whether the wrapper was declared, and a block lives to its end. -/
def livesOut : EStateM.Result Halt Workspace (Except ContainerError Module) → Bool
  | .ok (.ok m) w =>
    (m.functions.all fun f => f.name != "rc_new" ||
      f.params == [("value", (pairWrapper w m).payload)]) &&
    (w.library.layouts.find? ⟨m.id, "pair"⟩).any
      (fun l => l.fields.map (·.type) == [.u8, .i64]) &&
    match (pairWrapper w m).runAll (pairLife m) w.freshStore with
    | .ok answers _ => isFirstHandle answers
    | .error _ _ => false
  | .ok (.error _) _ | .error _ _ => false

set_option maxRecDepth 20000 in
theorem livesOut_pair :
    livesOut ((Work.declareWrapper "rc" pairFragment).run (.initial 4096 (.empty "/"))) = true := by
  unfold Work.declareWrapper Container.wrapperUnit Container.instantiate Template.read
  -- the text of the template is given by its characters, which the kernel can scan
  simp only [show readForms wrapper = _ from readForms_eq (toList_pasting String.toList_ofList)]
  decide +kernel

theorem exists_of_livesOut {r : EStateM.Result Halt Workspace (Except ContainerError Module)}
    (h : livesOut r = true) : ∃ m w ref target rest s, r = .ok (.ok m) w ∧
      (∀ f ∈ m.functions, f.name = "rc_new" → f.params = [("value", (pairWrapper w m).payload)]) ∧
      (∃ l, w.library.layouts.find? ⟨m.id, "pair"⟩ = some l ∧ l.fields.map (·.type) = [.u8, .i64]) ∧
      (pairWrapper w m).runAll (pairLife m) w.freshStore =
        .ok (.value (.struct ref [.ptr 16 target]) :: rest) s := by
  rcases r with ⟨_ | m, w⟩ | _
  · cases h
  · obtain ⟨h, hlife⟩ := Bool.and_eq_true_iff.1 h
    obtain ⟨hpayload, hlayout⟩ := Bool.and_eq_true_iff.1 h
    obtain ⟨l, hl, htypes⟩ := (Option.any_eq_true _ _).1 hlayout
    rcases hrun : (pairWrapper w m).runAll (pairLife m) w.freshStore with ⟨answers, s⟩ | _
    · rw [hrun] at hlife
      obtain ⟨ref, target, rest, rfl⟩ := exists_of_isFirstHandle hlife
      refine ⟨m, w, ref, target, rest, s, rfl, fun f hf hname => ?_,
        ⟨l, hl, beq_iff_eq.1 htypes⟩, hrun⟩
      simpa [hname] using List.all_eq_true.1 hpayload f hf
    · rw [hrun] at hlife
      cases hlife
  · cases h

/-- A pair is stored, gets a second owner, is read, and is gone once both owners have let go. -/
theorem Work.declareWrapper_counts_owners_pair : ∃ m w s,
    (Work.declareWrapper "rc" pairFragment).run (.initial 4096 (.empty "/")) = .ok (.ok m) w ∧
      Trace (pairWrapper w m) w.freshStore ⟨[], []⟩
        [((pairWrapper w m).turn (.new (pairValue m 300 7)), .value ((pairWrapper w m).handle 16)),
          ((pairWrapper w m).turn (.duplicate 16), .value ((pairWrapper w m).handle 16)),
          ((pairWrapper w m).turn (.count 16), .value (.int 2)),
          ((pairWrapper w m).turn (.load 16), .value (pairValue m 44 7)),
          ((pairWrapper w m).turn (.release 16), .value .unit),
          ((pairWrapper w m).turn (.count 16), .value (.int 1)),
          ((pairWrapper w m).turn (.release 16), .value .unit)] s ⟨[], []⟩ ∧
      s.heap.live = [] := by
  obtain ⟨m, w, ref, target, rest, s, hdeclare, hpayload, ⟨l, hl, htypes⟩, hlife⟩ :=
    exists_of_livesOut livesOut_pair
  have hbound : Container.Bounded pairFragment.root := fun items hitems => by
    cases hitems
    decide
  obtain ⟨payload, ⟨f, hf, hname, hparams⟩, hshows⟩ :=
    declareWrapper_counts_owners hdeclare rfl hbound
  cases hparams.symm.trans (hpayload f hf hname)
  have hsound : w.freshStore.heap.Sound := Heap.Sound.withLimit 4096
  -- what happens next is allowed, and answered as the books expect it
  have next :
      ∀ (e : Event) {trace : List (Turn × Answer)} {b : Books} {answer : Answer} {s₁ s₂ : Store},
      Trace (pairWrapper w m) w.freshStore ⟨[], []⟩ trace s₁ b →
      ((pairWrapper w m).turn e).run (pairWrapper w m) s₁ = .ok answer s₂ →
      b.Permits (pairWrapper w m) w.library e →
      b.Expects (pairWrapper w m) w.library e answer ∧ Trace (pairWrapper w m) w.freshStore ⟨[], []⟩
        (trace ++ [((pairWrapper w m).turn e, answer)]) s₂ (b.record e answer) := by
    intro e trace b answer s₁ s₂ htrace hrun hpermits
    have hallowed : ((pairWrapper w m).turn e).Allowed (pairWrapper w m) b := ⟨.refl _, hpermits⟩
    exact ⟨(hshows hsound htrace).expects hallowed hrun, htrace.concat hallowed hrun⟩
  obtain ⟨_, _, s₁, ⟨⟩, hnew, h₁⟩ := Wrapper.runAll_cons hlife
  obtain ⟨⟨addr, haddr⟩, htrace⟩ := next (.new _) .nil hnew (conforms_pairValue hl htypes 300 7)
  cases haddr
  obtain ⟨_, _, s₂, -, hduplicate, h₂⟩ := Wrapper.runAll_cons h₁
  obtain ⟨rfl, htrace⟩ := next (.duplicate 16) htrace hduplicate
    ⟨_, List.mem_cons_self, rfl, by simp [Account.owners]⟩
  obtain ⟨_, _, s₃, -, hcount, h₃⟩ := Wrapper.runAll_cons h₂
  obtain ⟨⟨_, ha, -, n, rfl, hn⟩, htrace⟩ :=
    next (.count 16) htrace hcount ⟨_, List.mem_cons_self, rfl⟩
  cases List.mem_singleton.1 ha
  obtain rfl : n = 2 := Int64.toInt_inj.1 hn
  obtain ⟨_, _, s₄, -, hload, h₄⟩ := Wrapper.runAll_cons h₃
  obtain ⟨⟨_, ha, -, hvalue⟩, htrace⟩ := next (.load 16) htrace hload ⟨_, List.mem_cons_self, rfl⟩
  cases List.mem_singleton.1 ha
  cases (hvalue _ rfl).trans (congrArg Answer.value (stored_pairValue hl htypes 300 7))
  obtain ⟨_, _, s₅, -, hrelease, h₅⟩ := Wrapper.runAll_cons h₄
  obtain ⟨rfl, htrace⟩ := next (.release 16) htrace hrelease ⟨_, List.mem_cons_self, rfl⟩
  obtain ⟨_, _, s₆, -, hrecount, h₆⟩ := Wrapper.runAll_cons h₅
  obtain ⟨⟨_, ha, -, n, rfl, hn⟩, htrace⟩ :=
    next (.count 16) htrace hrecount ⟨_, List.mem_cons_self, rfl⟩
  cases List.mem_singleton.1 ha
  obtain rfl : n = 1 := Int64.toInt_inj.1 hn
  obtain ⟨_, _, s₇, -, hlast, -⟩ := Wrapper.runAll_cons h₆
  obtain ⟨rfl, htrace⟩ := next (.release 16) htrace hlast ⟨_, List.mem_cons_self, rfl⟩
  exact ⟨m, w, s₇, hdeclare, htrace, (hshows hsound htrace).live.eq_nil⟩

end Kiln
