import Kiln.Lowering.Unit
import Mathlib.Data.List.Forall2
/-!
# What is known of steps that were not refused

Lowering is a row of steps each of which may refuse the unit. A row that went through
comes apart into its steps (`ok_of_bind`), a fold that adds one element after the other
into one fact about each (`foldlM_append`), and a step on a tree into the shape that the
tree must have had.
-/

namespace Kiln

variable {α β ε : Type}

/-- **A row of steps that went through comes apart.** -/
theorem ok_of_bind {x : Except ε α} {f : α → Except ε β} {b : β} (h : x >>= f = .ok b) :
    ∃ a, x = .ok a ∧ f a = .ok b := by
  rcases x with e | a
  · cases h
  · exact ⟨a, rfl, h⟩

/-- A step that goes through hands on what it gives. -/
theorem bind_of_ok {x : Except ε α} {a : α} (h : x = .ok a) (f : α → Except ε β) :
    x >>= f = f a := by
  subst h
  rfl

/-- A row of steps that was refused was refused in its first step, or behind it. -/
theorem error_of_bind {x : Except ε α} {f : α → Except ε β} {e : ε} (h : x >>= f = .error e) :
    x = .error e ∨ ∃ a, x = .ok a ∧ f a = .error e := by
  rcases x with e' | a
  · exact .inl (congrArg Except.error (Except.error.inj h))
  · exact .inr ⟨a, rfl, h⟩

theorem ok_of_map {x : Except ε α} {f : α → β} {b : β} (h : x.map f = .ok b) :
    ∃ a, x = .ok a ∧ f a = b := by
  rcases x with e | a
  · cases h
  · exact ⟨a, rfl, Except.ok.inj h⟩

theorem mapError_of_ok {ε' : Type} {x : Except ε α} {a : α} (h : x = .ok a) (f : ε → ε') :
    x.mapError f = .ok a := by
  subst h
  rfl

theorem ok_of_mapError {ε' : Type} {x : Except ε α} {f : ε → ε'} {a : α}
    (h : x.mapError f = .ok a) : x = .ok a := by
  rcases x with e | a
  · cases h
  · exact congrArg Except.ok (Except.ok.inj h)

theorem error_of_mapError {ε' : Type} {x : Except ε α} {f : ε → ε'} {e : ε'}
    (h : x.mapError f = .error e) : ∃ cause, x = .error cause ∧ e = f cause := by
  rcases x with cause | a
  · exact ⟨cause, rfl, (Except.error.inj h).symm⟩
  · cases h

theorem ok_of_toBool {x : Except ε α} (h : x.toBool = true) : ∃ a, x = .ok a := by
  rcases x with e | a
  · cases h
  · exact ⟨a, rfl⟩

/-- Steps that each add an element, one after the other. -/
theorem foldlM_append {f : List β → α → Except ε (List β)} {P : List β → α → β → Prop}
    (hf : ∀ {before a after}, f before a = .ok after → ∃ b, after = before ++ [b] ∧ P before a b) :
    ∀ {as : List α} {init out : List β}, as.foldlM f init = .ok out →
      ∃ bs, out = init ++ bs ∧ List.Forall₂ (fun a b => ∃ before, P before a b) as bs
  | [], init, out, h => by
    cases h
    exact ⟨[], (List.append_nil _).symm, .nil⟩
  | a :: as, init, out, h => by
    rw [List.foldlM_cons] at h
    obtain ⟨after, hstep, h⟩ := ok_of_bind h
    obtain ⟨b, rfl, hP⟩ := hf hstep
    obtain ⟨bs, rfl, hbs⟩ := foldlM_append hf h
    exact ⟨b :: bs, by rw [List.append_assoc]; rfl, .cons ⟨init, hP⟩ hbs⟩

/-- Steps one after the other keep what each of them keeps. -/
theorem foldlM_keeps {f : β → α → Except ε β} {I : β → Prop}
    (hf : ∀ {before a after}, I before → f before a = .ok after → I after) :
    ∀ {as : List α} {before after : β}, I before → as.foldlM f before = .ok after → I after
  | [], before, after, hI, h => by
    cases h
    exact hI
  | a :: as, before, after, hI, h => by
    rw [List.foldlM_cons] at h
    obtain ⟨between, hstep, h⟩ := ok_of_bind h
    exact foldlM_keeps hf (hf hI hstep) h

/-- Elements that a row of steps adds are added by one of them. -/
theorem mem_of_foldlM {f : List β → α → Except ε (List β)} {Q : β → Prop} :
    ∀ {as : List α} {before after : List β},
    (∀ {before after : List β}, ∀ a ∈ as, f before a = .ok after → ∀ b ∈ after, b ∈ before ∨ Q b) →
      as.foldlM f before = .ok after → ∀ b ∈ after, b ∈ before ∨ Q b
  | [], before, after, _, h, b, hb => by
    cases h
    exact .inl hb
  | a :: as, before, after, hf, h, b, hb => by
    rw [List.foldlM_cons] at h
    obtain ⟨between, hstep, h⟩ := ok_of_bind h
    rcases mem_of_foldlM (fun c hc => hf c (List.mem_cons_of_mem a hc)) h b hb with hb | hQ
    · exact hf a List.mem_cons_self hstep b hb
    · exact .inr hQ

/-- A row of checks goes through if each of them does. -/
theorem forM_ok_iff {f : α → Except ε Unit} :
    ∀ {as : List α}, as.forM f = .ok () ↔ ∀ a ∈ as, f a = .ok ()
  | [] => iff_of_true rfl fun _ ha => absurd ha List.not_mem_nil
  | a :: as => by
    rw [List.forM, List.forall_mem_cons, ← forM_ok_iff]
    rcases f a with e | ⟨⟩
    · exact iff_of_false (by rintro ⟨⟩) (by rintro ⟨⟨⟩, _⟩)
    · exact (and_iff_right rfl).symm

/-- A row of checks that does not go through is refused by one of them. -/
theorem error_of_forM {f : α → Except ε Unit} {e : ε} : ∀ {as : List α}, as.forM f = .error e →
    ∃ a ∈ as, f a = .error e
  | [], h => by cases h
  | a :: as, h => by
    rcases error_of_bind h with ha | ⟨_, _, has⟩
    · exact ⟨a, List.mem_cons_self, ha⟩
    · obtain ⟨b, hb, he⟩ := error_of_forM has
      exact ⟨b, List.mem_cons_of_mem a hb, he⟩

/-- Steps one after the other that do not go through are refused by one of them, after what the
steps before it kept. -/
theorem error_of_foldlM {f : β → α → Except ε β} {I : β → Prop} {e : ε} :
    ∀ {as : List α} {init : β},
      (∀ {before after}, ∀ a ∈ as, I before → f before a = .ok after → I after) → I init →
        as.foldlM f init = .error e → ∃ before, I before ∧ ∃ a ∈ as, f before a = .error e
  | [], init, _, _, h => by cases h
  | a :: as, init, hf, hI, h => by
    rw [List.foldlM_cons] at h
    rcases error_of_bind h with ha | ⟨_, hstep, has⟩
    · exact ⟨init, hI, a, List.mem_cons_self, ha⟩
    · obtain ⟨before, hbefore, b, hb, he⟩ :=
        error_of_foldlM (fun b hb => hf b (List.mem_cons_of_mem a hb))
          (hf a List.mem_cons_self hI hstep) has
      exact ⟨before, hbefore, b, List.mem_cons_of_mem a hb, he⟩

/-- A step on each element. -/
theorem forall₂_of_mapM {f : α → Except ε β} : ∀ {as : List α} {bs : List β},
    as.mapM f = .ok bs → List.Forall₂ (fun a b => f a = .ok b) as bs
  | [], bs, h => by
    cases h
    exact .nil
  | a :: as, bs, h => by
    rw [List.mapM_cons] at h
    obtain ⟨b, hb, h⟩ := ok_of_bind h
    obtain ⟨rest, hrest, h⟩ := ok_of_bind h
    cases h
    exact .cons hb (forall₂_of_mapM hrest)

/-- If steps on each element are refused one of them is. -/
theorem error_of_mapM {f : α → Except ε β} {e : ε} :
    ∀ {as : List α}, as.mapM f = .error e → ∃ a ∈ as, f a = .error e
  | [], h => by cases h
  | a :: as, h => by
    rw [List.mapM_cons] at h
    rcases error_of_bind h with hfirst | ⟨b, -, h⟩
    · exact ⟨a, List.mem_cons_self, hfirst⟩
    rcases error_of_bind h with hrest | ⟨_, -, h⟩
    · obtain ⟨a', ha', hstep⟩ := error_of_mapM hrest
      exact ⟨a', List.mem_cons_of_mem _ ha', hstep⟩
    · cases h

theorem getElem?_of_forall₂ {R : α → β → Prop} {as : List α} {bs : List β}
    (h : List.Forall₂ R as bs) : ∀ {i : Nat} {a : α}, as[i]? = some a →
      ∃ b, bs[i]? = some b ∧ R a b := by
  induction h with
  | nil =>
    intro i a ha
    cases ha
  | cons hab _ ih =>
    intro i a ha
    rcases i with _ | i
    · cases ha
      exact ⟨_, rfl, hab⟩
    · exact ih ha

theorem exists_of_forall₂ {R : α → β → Prop} {as : List α} {bs : List β}
    (h : List.Forall₂ R as bs) {b : β} (hb : b ∈ bs) : ∃ a ∈ as, R a b := by
  induction h with
  | nil => cases hb
  | cons hab _ ih =>
    rcases List.mem_cons.1 hb with rfl | hb
    · exact ⟨_, List.mem_cons_self, hab⟩
    · obtain ⟨a, ha, hR⟩ := ih hb
      exact ⟨a, List.mem_cons_of_mem _ ha, hR⟩

/-- What each of some elements is found to be. -/
theorem filterMap_eq_of_forall₂ {g : α → Option β} {as : List α} {bs : List β}
    (h : List.Forall₂ (fun a b => g a = some b) as bs) : as.filterMap g = bs := by
  induction h with
  | nil => rfl
  | cons hab _ ih => rw [List.filterMap_cons_some hab, ih]

/-! ## Shapes of trees -/

theorem head?_of_form? {t : Tree} {word : String} {rest : List Tree}
    (h : t.form? word = some rest) : t.head? = some word := by
  unfold Tree.form? at h
  split at h
  · split at h
    · assumption
    · cases h
  · cases h

theorem form?_eq_none {t : Tree} {word other : String} (h : t.head? = some other)
    (hne : other ≠ word) : t.form? word = none := by
  unfold Tree.head? at h
  split at h
  · rw [Tree.form?, if_neg fun hword => hne (Option.some.inj (h.symm.trans hword))]
  · cases h

theorem pairOf_eq {t a b : Tree} {shape : String} (h : pairOf t shape = .ok (a, b)) :
    ∃ s, t = .node [a, b] s := by
  rcases t with ⟨atom, s⟩ | ⟨items, s⟩
  · cases h
  · unfold pairOf Tree.items? at h
    dsimp only at h
    split at h
    · rename_i heq
      cases h
      exact ⟨s, by rw [Option.some.inj heq]⟩
    · cases h

/-- Values of a type can be taken for it. -/
theorem isAssignable_self (t : Ty) : isAssignable t t = true := by
  simp [isAssignable]

/-- A name that may be declared is a symbol that is not reserved and holds no hole. -/
theorem declaredName_eq {target : Tree} {what : Noun} {symbol : String}
    (h : declaredName target what = .ok symbol) :
    target.symbol? = some symbol ∧ isReserved symbol = false ∧
      symbol.toList.contains '$' = false := by
  unfold declaredName at h
  split at h
  · cases h
  · rename_i found hfound
    split at h
    · cases h
    · split at h
      · cases h
      · rename_i hreserved hhole
        cases h
        exact ⟨hfound, Bool.eq_false_iff.2 hreserved, Bool.eq_false_iff.2 hhole⟩

end Kiln
