import Kiln.Proofs.Container.Block
/-!
# Books that are kept

Whatever lies in a block behind the number of its owners, what is done with owners is the same. So
it is told once, for blocks of any kind (`BlockKind`): the heap keeps the books if its blocks are
those of the books, and each account's block holds the number of its owners but one and then what
blocks of the kind hold (`Books.Kept`). Duplicating and releasing handles keeps the books, with the
account changed alike, and so does what other code does with its own blocks.
-/

namespace Kiln

open Blueprint Source

/-! ## Numbers of owners -/

theorem ofNat_add_one (n : Nat) : Int64.ofNat n + 1 = .ofNat (n + 1) := (Int64.ofNat_add n 1).symm

theorem ofNat_succ_sub_one (n : Nat) : Int64.ofNat (n + 1) - 1 = .ofNat n := by
  rw [← ofNat_add_one, Int64.add_sub_cancel]

theorem not_ofNat_neg {n : Nat} (h : n < 2 ^ 63) : ¬Int64.ofNat n < 0 := by
  rw [Int64.lt_iff_toInt_lt, Int64.toInt_ofNat_of_lt h]
  exact Int.not_lt.2 (Int.natCast_nonneg n)

/-! ## The invariant -/

/-- What blocks are like that were made for a value, or for one that was overwritten since. -/
structure BlockKind where
  /-- How many bytes the heap keeps for the block. -/
  room : Option Value → Nat
  /-- Whether these bytes may lie behind the number of owners. -/
  spells : Option Value → List UInt8 → Prop

variable {K : BlockKind} {h h' : Heap} {a : Account} {b : Books}

/-- The heap has a block for the account: it holds the number of owners behind the first, and then
what blocks of the kind hold. -/
structure Account.Kept (K : BlockKind) (h : Heap) (a : Account) : Prop where
  owned : a.releases ≤ a.duplicates
  few : a.owners < 2 ^ 63
  block : ∃ bytes, BlockAt h (K.room a.content) a.addr (.ofNat (a.duplicates - a.releases)) bytes ∧
    8 + bytes.length ≤ K.room a.content ∧ K.spells a.content bytes

/-- The account's block stays as it is. -/
theorem Account.Kept.of_arrays (hk : a.Kept K h)
    (harrays : ∀ array, (a.addr.toNat, array) ∈ h.arrays → (a.addr.toNat, array) ∈ h'.arrays) :
    a.Kept K h' := by
  obtain ⟨bytes, ⟨array, hmem, hrest⟩, hbytes⟩ := hk.block
  exact ⟨hk.owned, hk.few, bytes, ⟨array, harrays array hmem, hrest⟩, hbytes⟩

/-- All blocks, where those with owners are of a kind. -/
def Books.blocksOf (K : BlockKind) (b : Books) : List Block :=
  b.accounts.map (fun a => ⟨a.addr.toNat, K.room a.content⟩) ++ b.others

/-- **The heap keeps the books**: its blocks are theirs, and it has a block for each account. -/
structure Books.Kept (K : BlockKind) (h : Heap) (b : Books) : Prop where
  sound : h.Sound
  live : h.live.Perm (b.blocksOf K)
  accounts : ∀ a ∈ b.accounts, a.Kept K h

namespace Books

/-- At first no block has owners. -/
theorem kept_nil (K : BlockKind) (hs : h.Sound) : (⟨[], h.live⟩ : Books).Kept K h :=
  ⟨hs, List.Perm.refl _, fun _ ha => by cases ha⟩

namespace Kept

theorem nodup_addrs (hk : b.Kept K h) : ((b.blocksOf K).map (·.addr)).Nodup := by
  rw [← (hk.live.map _).nodup_iff, List.nodup_map_iff_inj_on hk.sound.nodup_live]
  exact fun c hc d hd => hk.sound.eq_of_addr_eq hc hd

/-- No two accounts have one address, -/
theorem nodup_accounts (hk : b.Kept K h) : (b.accounts.map (·.addr)).Nodup := by
  have hnodup := hk.nodup_addrs
  rw [blocksOf, List.map_append, List.nodup_append, List.map_map] at hnodup
  refine List.Nodup.of_map UInt64.toNat ?_
  rw [List.map_map]
  exact hnodup.1

theorem eq_of_addr (hk : b.Kept K h) {a a' : Account} (ha : a ∈ b.accounts) (ha' : a' ∈ b.accounts)
    (haddr : a.addr = a'.addr) : a = a' :=
  List.inj_on_of_nodup_map hk.nodup_accounts ha ha' haddr

/-- and no other block is at the address of one. -/
theorem ne_of_others (hk : b.Kept K h) (ha : a ∈ b.accounts) {c : Block} (hc : c ∈ b.others) :
    c.addr ≠ a.addr.toNat := by
  have hnodup := hk.nodup_addrs
  rw [blocksOf, List.map_append, List.nodup_append, List.map_map] at hnodup
  exact (hnodup.2.2 _ (List.mem_map.2 ⟨a, ha, rfl⟩) _ (List.mem_map_of_mem hc)).symm

/-- **A new block** keeps the books when an account is opened for it. -/
theorem opened (hk : b.Kept K h) {addr : UInt64} {content : Option Value} {bytes : List UInt8}
    (hs' : h'.Sound) (hlive : h'.live = ⟨addr.toNat, K.room content⟩ :: h.live)
    (hkeeps : ∀ e ∈ h.arrays, e ∈ h'.arrays) (hblock : BlockAt h' (K.room content) addr 0 bytes)
    (hroom : 8 + bytes.length ≤ K.room content) (hspells : K.spells content bytes) :
    (⟨⟨addr, 0, 0, content⟩ :: b.accounts, b.others⟩ : Books).Kept K h' := by
  refine ⟨hs', ?_, fun c hc => ?_⟩
  · rw [hlive]
    exact hk.live.cons _
  · rcases List.mem_cons.1 hc with rfl | hc
    · refine ⟨Nat.le_refl 0, ?_, bytes, hblock, hroom, hspells⟩
      rw [Account.owners]
      dsimp only
      omega
    · exact (hk.accounts c hc).of_arrays fun array hmem => hkeeps _ hmem

/-- **A change to the block of one account** keeps the books when the account is changed alike. -/
theorem update (hk : b.Kept K h) (ha : a ∈ b.accounts) (hs' : h'.Sound) (hlive : h'.live = h.live)
    (hkeeps : h.KeepsBut a.addr h') {change : Account → Account}
    (haddr : ∀ a, (change a).addr = a.addr)
    (hroom : ∀ a, K.room (change a).content = K.room a.content) (hchange : (change a).Kept K h') :
    (b.update a.addr change).Kept K h' := by
  refine ⟨hs', ?_, fun c hc => ?_⟩
  · have hblocks : (b.update a.addr change).blocksOf K = b.blocksOf K := by
      rw [blocksOf, blocksOf, Books.update, List.map_map]
      congr 1
      refine List.map_congr_left fun c _ => ?_
      rw [Function.comp_apply]
      split
      · rw [haddr, hroom]
      · rfl
    rw [hblocks, hlive]
    exact hk.live
  · obtain ⟨d, hd, rfl⟩ := List.mem_map.1 hc
    split
    · rename_i heq
      rw [hk.eq_of_addr hd ha heq]
      exact hchange
    · rename_i hne
      refine (hk.accounts d hd).of_arrays fun array hmem => hkeeps _ hmem fun heq => ?_
      exact hne (UInt64.toNat_inj.1 heq)

/-- **Giving back the block of an account** keeps the books when the account is closed. -/
theorem close (hk : b.Kept K h) (ha : a ∈ b.accounts) (hs' : h'.Sound)
    (hlive : h'.live = h.live.filter (·.addr ≠ a.addr.toNat)) (hkeeps : h.KeepsBut a.addr h') :
    (⟨b.accounts.filter (·.addr ≠ a.addr), b.others⟩ : Books).Kept K h' := by
  have hne : ∀ c : Account, c.addr ≠ a.addr ↔ c.addr.toNat ≠ a.addr.toNat :=
    fun c => not_congr UInt64.toNat_inj.symm
  refine ⟨hs', ?_, fun c hc => ?_⟩
  · have hothers : b.others.filter (·.addr ≠ a.addr.toNat) = b.others :=
      List.filter_eq_self.2 fun c hc => decide_eq_true (hk.ne_of_others ha hc)
    have hblocks : (b.blocksOf K).filter (·.addr ≠ a.addr.toNat) =
        (⟨b.accounts.filter (·.addr ≠ a.addr), b.others⟩ : Books).blocksOf K := by
      rw [blocksOf, blocksOf, List.filter_append, hothers, List.filter_map]
      congr 2
      exact List.filter_congr fun c _ => decide_eq_decide.2 (hne c).symm
    rw [hlive, ← hblocks]
    exact hk.live.filter _
  · obtain ⟨hc, hclosed⟩ := List.mem_filter.1 hc
    exact (hk.accounts c hc).of_arrays fun array hmem =>
      hkeeps _ hmem ((hne c).1 (of_decide_eq_true hclosed))

/-- Every account has an owner. -/
theorem owners_pos (hk : b.Kept K h) (ha : a ∈ b.accounts) : 0 < a.owners := by
  have howned := (hk.accounts a ha).owned
  rw [Account.owners]
  omega

/-- The books need no sweeping. -/
theorem sweep (hk : b.Kept K h) : b.sweep = b := by
  rw [Books.sweep, List.filter_eq_self.2 fun a ha => decide_eq_true (hk.owners_pos ha)]

/-- Sweeping closes an account that was released once for each owner. -/
theorem sweep_update (hk : b.Kept K h) (ha : a ∈ b.accounts) {change : Account → Account}
    (hchange : (change a).owners = 0) :
    (b.update a.addr change).sweep = ⟨b.accounts.filter (·.addr ≠ a.addr), b.others⟩ := by
  rw [Books.sweep, Books.update]
  congr 1
  dsimp only
  rw [List.filter_map]
  have hfilter : b.accounts.filter ((fun a => decide (0 < a.owners)) ∘
      fun c => if c.addr = a.addr then change c else c) = b.accounts.filter (·.addr ≠ a.addr) := by
    refine List.filter_congr fun c hc => ?_
    rw [Function.comp_apply]
    split
    · rename_i heq
      rw [hk.eq_of_addr hc ha heq, hchange]
      simp
    · rename_i hne
      rw [decide_eq_true (hk.owners_pos hc), decide_eq_true hne]
  rw [hfilter]
  refine (List.map_congr_left fun c hc => ?_).trans (List.map_id _)
  exact if_neg (of_decide_eq_true (List.mem_filter.1 hc).2)

end Kept

end Books

/-! ## Requests of others -/

/-- A request leaves blocks that it does not give back, besides what it leaves of others. -/
theorem Request.leaves_perm {r : Request} {answer : Except Fault Reply}
    {all some others : List Block} (hperm : all.Perm (some ++ others))
    (hfree : ∀ addr, r = .free addr → ∀ c ∈ some, c.addr ≠ addr.toNat) :
    (r.leaves all answer).Perm (some ++ r.leaves others answer) := by
  unfold leaves
  split
  · exact (hperm.cons _).trans List.perm_middle.symm
  · rename_i addr _
    have hsome : some.filter (·.addr ≠ addr.toNat) = some :=
      List.filter_eq_self.2 fun c hc => decide_eq_true (hfree addr rfl c hc)
    have hfilter := hperm.filter (·.addr ≠ addr.toNat)
    rw [List.filter_append, hsome] at hfilter
    exact hfilter
  · exact hperm

/-- **What other code does with its own blocks** is none of the owners' business. -/
theorem Books.Kept.run_request {s : Store} (hk : b.Kept K s.heap) {r : Request}
    (hwithin : r.Within b.others)
    (hfree : ∀ addr, r = .free addr → ∀ a ∈ b.accounts, a.addr ≠ addr) :
    r.run.OutOfRoom s ∨ ∃ reply h', r.run s = .ok (.reply reply) { s with heap := h' } ∧
      (b.record (.request r) (.reply reply)).Kept K h' := by
  have hothers : b.others ⊆ s.heap.live := fun c hc =>
    hk.live.mem_iff.2 (List.mem_append_right _ hc)
  rcases Heap.step_arrays hk.sound hothers hwithin with
    ⟨size, e, rfl, hfail⟩ | ⟨reply, h', hperform, hs', -, hspares⟩
  · exact .inl (.inr ⟨e, s, Request.run_of_error hfail⟩)
  · refine .inr ⟨reply, h', Request.run_of_ok hperform, hs', ?_, fun a ha => ?_⟩
    · rw [Heap.live_perform hk.sound hperform]
      refine Request.leaves_perm hk.live fun addr hr c hc => ?_
      obtain ⟨a, ha, rfl⟩ := List.mem_map.1 hc
      exact fun heq => hfree addr hr a ha (UInt64.toNat_inj.1 heq)
    · refine (hk.accounts a ha).of_arrays fun array hmem => hspares _ hmem
        (fun c hc => hk.ne_of_others ha hc) fun addr hr heq => ?_
      exact hfree addr hr a ha (UInt64.toNat_inj.1 heq).symm

/-! ## Calls -/

namespace Wraps

variable {lib : Library} {name : String} {inner payload : Tree} {m : Module}
  (hw : Wraps lib name inner payload m) {later : Library} (hlater : later.find? lib.nextId = some m)
  {s : Store} (hk : b.Kept K s.heap) (ha : a ∈ b.accounts) (depth : Nat) {t : Ty}

include hw hlater hk ha

/-- **A block tells how many owners it has.** -/
theorem call_count :
    (m.call later depth (name ++ "_count") [handleAt lib name a.addr t]).OutOfRoom s ∨
      ∃ n : Int64, m.call later depth (name ++ "_count") [handleAt lib name a.addr t] s =
        .ok (.int n) s ∧ n.toInt = 1 + a.duplicates - a.releases := by
  obtain ⟨howned, hfew, bytes, hblock, hroom, -⟩ := hk.accounts a ha
  rw [Account.owners] at hfew
  refine (hw.count_ok hlater hk.sound depth hblock (by omega)).imp_right fun hcall => ⟨_, hcall, ?_⟩
  rw [ofNat_add_one, Int64.toInt_ofNat_of_lt (by omega)]
  omega

/-- **A block gets one more owner.** -/
theorem call_duplicate (hfew : a.owners + 1 < 2 ^ 63) :
    (m.call later depth (name ++ "_duplicate") [handleAt lib name a.addr t]).OutOfRoom s ∨
      ∃ h', m.call later depth (name ++ "_duplicate") [handleAt lib name a.addr t] s =
          .ok (handleAt lib name a.addr t) { s with heap := h' } ∧ s.heap.KeepsBut a.addr h' ∧
        (b.update a.addr fun a => { a with duplicates := a.duplicates + 1 }).Kept K h' := by
  obtain ⟨howned, -, bytes, hblock, hroom, hspells⟩ := hk.accounts a ha
  refine (hw.duplicate_ok hlater hk.sound depth hblock hroom).imp_right
    fun ⟨h', hcall, hs', hlive, hkeeps, hblock'⟩ => ⟨h', hcall, hkeeps, ?_⟩
  rw [Account.owners] at hfew
  rw [ofNat_add_one] at hblock'
  refine hk.update ha hs' hlive hkeeps (fun _ => rfl) (fun _ => rfl)
    ⟨Nat.le_succ_of_le howned, ?_, bytes, ?_, hroom, hspells⟩
  · rw [Account.owners]
    dsimp only
    omega
  · dsimp only
    rw [Nat.sub_add_comm howned]
    exact hblock'

variable (hbase : later.find? ⟨0⟩ = some Module.base)

include hbase

/-- **A block loses an owner**, and is given back with the last one. -/
theorem call_release :
    (m.call later depth (name ++ "_release") [handleAt lib name a.addr t]).OutOfRoom s ∨
      ∃ h', m.call later depth (name ++ "_release") [handleAt lib name a.addr t] s =
          .ok .unit { s with heap := h' } ∧ s.heap.KeepsBut a.addr h' ∧
        (b.update a.addr fun a => { a with releases := a.releases + 1 }).sweep.Kept K h' := by
  obtain ⟨howned, hfew, bytes, hblock, hroom, hspells⟩ := hk.accounts a ha
  rw [Account.owners] at hfew
  rcases Nat.eq_or_lt_of_le howned with hlast | hmore
  · -- no owner is left behind the first
    refine (hw.release_last hlater hk.sound depth hbase hblock (by omega)
      (by rw [hlast, Nat.sub_self]; decide)).imp_right
        fun ⟨h', hcall, hs', hlive, hkeeps⟩ => ⟨h', hcall, hkeeps, ?_⟩
    rw [hk.sweep_update ha (by rw [Account.owners]; dsimp only; omega)]
    exact hk.close ha hs' hlive hkeeps
  · obtain ⟨rest, hrest⟩ : ∃ rest, a.duplicates - a.releases = rest + 1 :=
      ⟨a.duplicates - a.releases - 1, by omega⟩
    rw [hrest] at hblock
    refine (hw.release_ok hlater hk.sound depth hbase hblock hroom
      (by rw [ofNat_succ_sub_one]; exact not_ofNat_neg (by omega))).imp_right
        fun ⟨h', hcall, hs', hlive, hkeeps, hblock'⟩ => ⟨h', hcall, hkeeps, ?_⟩
    rw [ofNat_succ_sub_one] at hblock'
    have hkept : (b.update a.addr fun a => { a with releases := a.releases + 1 }).Kept K h' := by
      refine hk.update ha hs' hlive hkeeps (fun _ => rfl) (fun _ => rfl)
        ⟨hmore, ?_, bytes, ?_, hroom, hspells⟩
      · rw [Account.owners]
        dsimp only
        omega
      · dsimp only
        rw [show a.duplicates - (a.releases + 1) = rest by omega]
        exact hblock'
    rw [hkept.sweep]
    exact hkept

end Wraps

end Kiln
