import Kiln.Proofs.Memory.Canonical
import Kiln.Proofs.Source.Structs
import Kiln.Proofs.Workspace.Regular
import Mathlib.Logic.Relation
/-!
# Structs of units that are accepted

A unit whose structs contain each other in a circle is refused, wherever it has them and however
long the circle is: what a struct holds by value is laid out before it, so the places of the structs
among those of the module go down along a chain of fields. Of a unit that is accepted every struct
has a layout, made of the fields that are written down. Where the exact size of a struct is small
enough, the layout is the natural one, as it is the one that its fields ask for, and everything that
is done with the struct stays inside its bytes (`Workspace.Used.lays_out`).
-/

namespace Kiln

open Source

/-! ## Structs that contain each other -/

/-- One struct contains another by value: a field is of the type that is the name of the other. -/
def Contains (forms : List StructForm) (outer inner : String) : Prop :=
  ∃ form ∈ forms, form.name = outer ∧ inner ∈ forms.map (·.name) ∧
    ∃ field s s', Tree.node [field, .leaf (.sym inner) s] s' ∈ form.fields

section Accepted

variable {lib : Library} {deps : List Module} {root : Tree} {names : Names}
  {forms : List FunctionForm} {m : Module} (h : Settled lib deps root names forms m)
  (hdeps : ∀ dep ∈ deps, dep.id ≠ lib.nextId)

include h hdeps

/-- A struct stands behind those that it contains. -/
theorem Source.Settled.idxOf_lt {outer inner : String}
    (hcontains : Contains (structForms root) outer inner) :
    (m.structs.map (·.name)).idxOf inner < (m.structs.map (·.name)).idxOf outer := by
  obtain ⟨form, hform, rfl, hinner, field, s, s', hfield⟩ := hcontains
  obtain ⟨before, d, fields, hlies⟩ := h.lies rfl hdeps hform
  obtain ⟨found, hfound, name, type, s'', htree, -, htype⟩ :=
    exists_of_forall₂ hlies.shapes.flip hfield
  obtain ⟨rfl, rfl⟩ : field = name ∧ Tree.leaf (.sym inner) s = type := by
    simpa using (Tree.node.inj htree).1
  -- the field is of the struct, which is one of the unit
  obtain ⟨innerForm, hinnerForm, rfl⟩ := List.mem_map.1 hinner
  rw [h.typeOf_struct hinnerForm] at htype
  have hbefore : innerForm.name ∈ before.map (·.name) := by
    rcases hlies.held found hfound _ htype.symm with ⟨-, hmem⟩ | ⟨dep, hdep, hid, -⟩
    · exact hmem
    · exact absurd hid.symm (hdeps dep hdep)
  have hnot := hlies.not_mem h.nodup_structs
  obtain ⟨rest, hplace⟩ := hlies.place
  have hsplit : m.structs.map (·.name) = before.map (·.name) ++
      (form.name :: rest.map (·.name)) := by
    rw [← hplace, ← hlies.name]
    simp
  rw [hsplit, List.idxOf_append_of_mem hbefore, List.idxOf_append_of_notMem (hlies.name ▸ hnot),
    List.idxOf_cons_self]
  exact List.idxOf_lt_length_of_mem hbefore

/-- **No struct of a unit that is accepted contains itself**, through whatever others. -/
theorem Source.Settled.not_contains {name : String} :
    ¬Relation.TransGen (Contains (structForms root)) name name := by
  have hlt : ∀ {outer inner : String}, Relation.TransGen (Contains (structForms root)) outer inner →
      (m.structs.map (·.name)).idxOf inner < (m.structs.map (·.name)).idxOf outer := by
    intro outer inner hchain
    induction hchain with
    | single hstep => exact h.idxOf_lt hdeps hstep
    | tail _ hstep ih => exact Nat.lt_trans (h.idxOf_lt hdeps hstep) ih
  exact fun hcircle => Nat.lt_irrefl _ (hlt hcircle)

end Accepted

/-! ## Structs that are never left -/

/-- **What is done with a struct stays inside its bytes.** Its layout is the natural one; the fields
lie beside each other and inside; writing any value as the struct gives as many bytes as it takes,
or a mismatch, and as many bytes can be read; and where a pointer to the struct points, a pointer to
a field points inside. -/
structure Layouts.Encloses (Γ : Layouts) (ref : StructRef) (l : Layout) : Prop where
  found : Γ.find? ref = some l
  natural : l.Natural Γ
  storable : ∀ f ∈ l.fields, f.type.isStorable = true
  apart : l.fields.Pairwise fun f g => f.offset.toNat + (f.type.size Γ).toNat ≤ g.offset.toNat
  inside : ∀ f ∈ l.fields, f.offset.toNat + (f.type.size Γ).toNat ≤ l.size.toNat
  written :
    ∀ v : Value, Value.Matches (fun bytes => bytes.length = l.size.toNat) (v.encode Γ (.struct ref))
  read :
    ∀ bytes : List UInt8, bytes.length = l.size.toNat →
      ∃ v, Value.decode Γ (.struct ref) bytes = .ok v
  pointed :
    ∀ {lib : Library} {depth : Nat} {home : ModuleId} {base : Code} {fr fr' : Frame} {s s' :
      Store} {addr : UInt64} {t : Ty}, eval lib depth home base fr s = .ok (.ptr addr t, fr') s' →
      addr.toNat + l.size.toNat < UInt64.size → ∀ f ∈ l.fields, ∃ p,
        eval lib (depth + 1) home (.fieldPtr base f.offset f.type) fr s =
          .ok (.ptr p f.type, fr') s' ∧
          addr.toNat ≤ p.toNat ∧ p.toNat + (f.type.size Γ).toNat ≤ addr.toNat + l.size.toNat

/-- Fields one behind the other are beside each other. -/
theorem Layout.Packed.pairwise {Γ : Layouts} {stop : Nat} : ∀ {fs : List Field} {start : Nat},
    Packed Γ start fs stop →
      fs.Pairwise fun f g => f.offset.toNat + (f.type.size Γ).toNat ≤ g.offset.toNat
  | [], _, _ => .nil
  | _ :: _, _, ⟨_, h⟩ => .cons (fun _ hg => (h.of_mem hg).1) (pairwise h)

theorem eval_fieldPtr {lib : Library} {depth : Nat} {home : ModuleId} {base : Code} {fr fr' : Frame}
    {s s' : Store} {addr offset : UInt64} {t u : Ty}
    (hbase : eval lib depth home base fr s = .ok (.ptr addr t, fr') s') :
    eval lib (depth + 1) home (.fieldPtr base offset u) fr s =
      .ok (.ptr (addr + offset) u, fr') s' := by
  rw [eval]
  exact Run.bind_ok hbase

/-- **A struct with natural layouts at every level is never left.** -/
theorem Ty.Natural.encloses {Γ : Layouts} (hΓ : Γ.Regular) {ref : StructRef} {n : Nat}
    (h : (Ty.struct ref).Natural Γ n) (hn : n ≤ Γ.count)
    (hroom : ((Ty.struct ref).size Γ).toNat < bufferLimit) : ∃ l, Γ.Encloses ref l := by
  have hfits := (h.grounded.fits hΓ rfl hroom).mono hn
  obtain ⟨l, k, hl, -, hnatural, hfields⟩ := h.struct
  have hsize : ((Ty.struct ref).size Γ).toNat = l.size.toNat := by rw [Ty.size_struct hl]
  have hinside : ∀ f ∈ l.fields, f.offset.toNat + (f.type.size Γ).toNat ≤ l.size.toNat :=
    fun f hf => (hnatural.packed.of_mem hf).2
  refine ⟨l, hl, hnatural,
    fun f hf => (hfields f hf).1, hnatural.packed.pairwise, hinside, fun v => ?_,
    fun bytes hlength => ?_, fun {lib depth home base fr fr' s s' addr t} hbase haddr f hf => ?_⟩
  · rw [← hsize]
    exact Value.encode_matches v hfits
  · exact Value.decodeWithin_ok hfits (hlength.trans hsize.symm)
  · have hin := hinside f hf
    have hoffset : (addr + f.offset).toNat = addr.toNat + f.offset.toNat := by
      rw [UInt64.toNat_add, Nat.mod_eq_of_lt]
      show _ < UInt64.size
      omega
    exact ⟨addr + f.offset, eval_fieldPtr hbase, by omega, by omega⟩

/-! ## Units -/

/-- **Structs are laid out as they should be, or refused.** A unit whose structs contain each other
in a circle is refused, and the host gives up on none but one with a struct that takes more than can
be counted. Of a unit that is accepted, if no struct is too large, every struct form comes to a
layout with the fields that it declares and the exact size. The struct, and each that lies inside of
it at any level, has its natural layout by the sizes that there are in the end, is never left by
what is done with it, and lies inside the struct around it. -/
theorem Workspace.Used.lays_out {w : Workspace} (hw : w.Used) {name : String}
    {deps : List Module} {root : Tree} (hdeps : ∀ d ∈ deps, w.library.find? d.id = some d) :
    (∀ struct, Relation.TransGen (Contains (structForms root)) struct struct →
      ∃ e, lowerUnit w.library name deps root = .error e ∧
        ∀ vast, e.fault = .oversized vast → Vast w.library deps root vast) ∧
    ∀ u, lowerUnit w.library name deps root = .ok u →
      let Γ := (w.library.push u.module).layouts
      (∀ d ∈ u.module.structs, ((Ty.struct ⟨u.module.id, d.name⟩).extent Γ).size < 2 ^ 63) →
        ∀ form ∈ structForms root, ∃ l, Γ.Encloses ⟨u.module.id, form.name⟩ l ∧
          u.module.layout? form.name = some l ∧
          List.Forall₂ (fun tree f => (Scenery.ofUnit w.library.nextId deps root).FieldTree tree
            (f.name, f.type))
            form.fields l.fields ∧
          l.size.toNat = ((Ty.struct ⟨u.module.id, form.name⟩).extent Γ).size ∧
          ∀ offset inner, (Ty.struct ⟨u.module.id, form.name⟩).Part Γ offset (.struct inner) →
            ∃ l', Γ.Encloses inner l' ∧ offset + l'.size.toNat ≤ l.size.toNat := by
  have hne : ∀ d ∈ deps, d.id ≠ w.library.nextId := fun d hd => Library.ne_nextId (hdeps d hd)
  refine ⟨fun struct hcircle => ?_, fun u hu => ?_⟩
  · cases hu : lowerUnit w.library name deps root with
    | error e =>
      obtain ⟨fault, s⟩ := e
      refine ⟨⟨fault, s⟩, rfl, fun vast hfault => ?_⟩
      subst hfault
      exact vast_of_oversized hdeps hw.linked.grounded hw.regular hu
    | ok u =>
      obtain ⟨names, forms, hsettled⟩ := settled_of_lowerUnit hu
      exact absurd hcircle (hsettled.not_contains hne)
  · intro Γ hsmall form hform
    obtain ⟨names, forms, hsettled⟩ := settled_of_lowerUnit hu
    have hregular : Γ.Regular := regular_of_lowerUnit hdeps hw.linked.grounded hw.regular hu
    obtain ⟨-, -, hgrounded⟩ := hw.linked.push hdeps hu
    obtain ⟨before, d, fields, hlies⟩ := hsettled.lies rfl hne hform
    have hlayout := hlies.layout? hsettled.nodup_structs
    have hfound : Γ.find? ⟨u.module.id, form.name⟩ = some d.layout := by
      rw [hsettled.id]
      exact (find?_layouts_push _ _ _).trans hlayout
    -- the exact size is a word, so that layouts are natural at every level
    have hsize := hsmall d hlies.mem
    rw [hlies.name] at hsize
    obtain ⟨hnatural, hexact⟩ :=
      (hgrounded _ _ hfound).natural hregular (Nat.lt_trans hsize (by decide))
    have hstruct : ((Ty.struct ⟨u.module.id, form.name⟩).size Γ).toNat = d.layout.size.toNat := by
      rw [Ty.size_struct hfound]
    have hroom : ((Ty.struct ⟨u.module.id, form.name⟩).size Γ).toNat < bufferLimit :=
      hexact.size ▸ hsize
    obtain ⟨l, hl⟩ := hnatural.encloses hregular (Nat.le_refl _) hroom
    cases hfound.symm.trans hl.found
    refine ⟨_, hl, hlayout, ?_, hstruct.symm.trans hexact.size, fun offset inner hpart => ?_⟩
    · have hshapes := hlies.shapes
      rw [← Layout.named_ofFields? hlies.layout] at hshapes
      exact List.forall₂_map_right_iff.1 hshapes
    · obtain ⟨hin, k, hk, hinner⟩ := hnatural.part hpart
      obtain ⟨l', hl'⟩ := hinner.encloses hregular hk (by omega)
      rw [Ty.size_struct hl'.found, hstruct] at hin
      exact ⟨l', hl', hin⟩

/-- `(struct line (ends span) (bold bool)) (struct span (start i64) (open bool))` -/
def lineUnit : Tree :=
  .list [.word "do",
    .list [.word "struct", .word "line", .list [.word "ends", .word "span"],
      .list [.word "bold", .word "bool"]],
    .list [.word "struct", .word "span", .list [.word "start", .word "i64"],
      .list [.word "open", .word "bool"]]]

/-- `(struct egg (from hen)) (struct hen (lays egg))` -/
def eggUnit : Tree :=
  .list [.word "do", .list [.word "struct", .word "egg", .list [.word "from", .word "hen"]],
    .list [.word "struct", .word "hen", .list [.word "lays", .word "egg"]]]

/-- A unit on its own that is accepted, and for which a check holds. -/
theorem exists_lowered (name : String) (root : Tree) (check : LoweredUnit → Bool)
    (h : ((lowerUnit .initial name [] root).toOption.any check) = true) :
    ∃ u, lowerUnit .initial name [] root = .ok u ∧ check u = true := by
  obtain ⟨u, hu, hcheck⟩ := (Option.any_eq_true _ _).1 h
  refine ⟨u, ?_, hcheck⟩
  cases hresult : lowerUnit .initial name [] root <;> rw [hresult] at hu <;> cases hu
  rfl

/-- A struct around one that is written down behind it, and two structs around each other. -/
theorem Workspace.Used.lays_out_line : (∃ u, lowerUnit .initial "line" [] lineUnit = .ok u ∧
      ∃ l, (Library.initial.push u.module).layouts.Encloses ⟨u.module.id, "line"⟩ l ∧ l.size = 24) ∧
    ∃ e, lowerUnit .initial "egg" [] eggUnit = .error e ∧
      ∀ vast, e.fault = .oversized vast → Vast .initial [] eggUnit vast := by
  have hused : (Workspace.initial 0 (.empty "")).Used := .initial 0 _
  refine ⟨?_, (hused.lays_out (fun _ hd => by cases hd)).1 "egg" ?_⟩
  · obtain ⟨u, hlower, hcheck⟩ := exists_lowered "line" lineUnit (fun u =>
        let extent (name : String) :=
          (Ty.struct ⟨u.module.id, name⟩).extent (Library.initial.push u.module).layouts
        u.module.structs.all (fun d => (extent d.name).size < 2 ^ 63) && (extent "line").size == 24)
          (by decide +kernel)
    obtain ⟨hsmall, hsize⟩ := Bool.and_eq_true_iff.1 hcheck
    obtain ⟨l, hl, -, -, hexact, -⟩ := (hused.lays_out (fun _ hd => by cases hd)).2 u hlower
      (fun d hd => of_decide_eq_true (List.all_eq_true.1 hsmall d hd))
      ⟨"line", _, _⟩ List.mem_cons_self
    exact ⟨u, hlower, l, hl, UInt64.toNat_inj.1 (hexact.trans (beq_iff_eq.1 hsize))⟩
  · have hegg : Contains (structForms eggUnit) "egg" "hen" :=
      ⟨_, List.mem_cons_self, rfl, by decide, _, _, _, List.mem_cons_self⟩
    have hhen : Contains (structForms eggUnit) "hen" "egg" :=
      ⟨_, List.mem_cons_of_mem _ List.mem_cons_self, rfl, by decide, _, _, _, List.mem_cons_self⟩
    exact .tail (.single hegg) hhen

end Kiln
