import Kiln.Proofs.Lowering.Oversized
import Kiln.Proofs.Lowering.Units
import Kiln.Proofs.Typing.Extents
import Kiln.Proofs.Workspace.Isolation
import Kiln.Proofs.Workspace.Mirroring
/-!
# Layouts are those that fields ask for

Every layout of a used workspace is the one that the fields of the struct ask for, with the layouts
that there are in the end (`Workspace.Used.regular`): what is laid out for a unit is so from the
start (`Names.LaidOut.regular`), and stays so when further modules come. It is by these layouts,
complete or not, that it is told which units the host gives up on. They have a struct that takes
more bytes than 64 bits can count (`Workspace.Used.vast_of_oversized`); whatever else lowering
objects to, the unit is refused for (`Workspace.Used.refuses`).
-/

namespace Kiln

open Source

/-! ## Regular layouts -/

/-- A layout stays regular where more structs have one. -/
theorem Layout.Regular.mono {Γ Δ : Layouts} {l : Layout} {n : Nat} (h : l.Regular Γ)
    (hin : Γ.Within Δ) (hfields : ∀ f ∈ l.fields, f.type.Grounded Γ n) : l.Regular Δ := by
  refine ⟨?_, h.storable⟩
  rw [Names.ofFields?_congr (Γ := Γ)]
  · exact h.made
  · refine List.forall_mem_map.2 fun f hf => Ty.size_eq_of_find? fun ref href => ?_
    obtain ⟨l', hl'⟩ := (href ▸ hfields f hf : (Ty.struct ref).Grounded Γ n).struct
    rw [hl', hin ref l' hl']

/-- **Structs that are laid out have regular layouts**, and so have all others still. -/
theorem Names.LaidOut.regular {names : Names} {forms : List StructForm} {structs : List StructDef}
    (hnames : names.Outlines forms)
    (hother : ∀ ref l, names.layouts.find? ref = some l → ref.home ≠ names.home)
    (hgrounded : names.layouts.Grounded) (hregular : names.layouts.Regular)
    (h : names.LaidOut forms structs) :
    (names.withStructs structs).layouts.Regular := by
  intro ref l hfound
  have hin := Names.within_withStructs hother structs
  rw [withStructs] at hfound
  dsimp only at hfound
  split at hfound
  · obtain ⟨d, hd, rfl⟩ := Option.map_eq_some_iff.1 hfound
    obtain ⟨before, form, fields, hends⟩ := h.ends hnames d (List.mem_of_find?_eq_some hd)
    have hnamed := Layout.named_ofFields? hends.layout
    refine ⟨hnamed ▸ hends.layout, fun f hf => ?_⟩
    have hfield : (f.name, f.type) ∈ fields := hnamed ▸ List.mem_map.2 ⟨f, hf, rfl⟩
    obtain ⟨tree, -, hof⟩ := exists_of_forall₂ hends.holds hfield
    exact hof.storable
  · obtain ⟨n, hfields⟩ := (hgrounded ref l hfound).fields hfound
    exact (hregular ref l hfound).mono hin hfields

/-! ## Units -/

/-- The struct forms that a tree defines. -/
abbrev structForms (root : Tree) : List StructForm := (definitions root).filterMap Scenery.structOf?

/-- The names that the structs of a unit are laid out with. -/
abbrev structNames (lib : Library) (deps : List Module) (root : Tree) : Names :=
  ⟨lib.nextId, deps, lib.layouts, (structForms root).map (·.name), [], []⟩

/-- The unit has a struct of the name that takes more bytes than 64 bits can count. These are the
bytes that its fields ask for, where the structs that they hold are laid out. -/
def Vast (lib : Library) (deps : List Module) (root : Tree) (struct : String) : Prop :=
  ∃ done form fields, (structNames lib deps root).LaidOut (structForms root) done ∧
    form ∈ structForms root ∧ form.name = struct ∧
    List.Forall₂ ((structNames lib deps root).FieldOf (structForms root) done) form.fields fields ∧
    UInt64.size ≤ (Extent.ofParts (fields.map fun f =>
      f.2.extent ((structNames lib deps root).withStructs done).layouts)).size

section Lowered

variable {lib : Library} {name : String} {deps : List Module} {root : Tree}
  (hdeps : ∀ d ∈ deps, lib.find? d.id = some d) (hgrounded : lib.layouts.Grounded)
  (hregular : lib.layouts.Regular)

include hdeps

theorem outlines_structNames : (structNames lib deps root).Outlines (structForms root) :=
  ⟨rfl, fun m hm => Library.ne_nextId (hdeps m hm)⟩

include hgrounded hregular

/-- The structs of a unit that is accepted have regular layouts, and so have all others still. -/
theorem regular_of_lowerUnit {u : LoweredUnit} (h : lowerUnit lib name deps root = .ok u) :
    (lib.push u.module).layouts.Regular := by
  obtain ⟨names, forms, hsettled⟩ := settled_of_lowerUnit h
  have hlaid := hsettled.laid
  rw [hsettled.structs] at hlaid
  rw [← layouts_push (structNames lib deps root) rfl rfl rfl]
  exact (Names.layOutAll_laidOut hlaid).1.regular (outlines_structNames hdeps)
    (fun ref l hl => Library.home_ne_nextId hl) hgrounded hregular

/-- **The host gives up on a unit only for a struct that takes more than can be counted.** -/
theorem vast_of_oversized {struct : String} {s : Span}
    (h : lowerUnit lib name deps root = .error ⟨.oversized struct, s⟩) :
    Vast lib deps root struct := by
  have hself : root.Matches (fun _ _ => True) root := Tree.matches_self fun _ _ => trivial
  obtain ⟨o, s', ho, hall⟩ :=
    (lowerUnit_upheld (Module.Cover.refl deps) hself name name).oversized h
  have houtlines : (structNames lib deps root).Outlines (structForms root) :=
    outlines_structNames hdeps
  have hother : ∀ ref l, lib.layouts.find? ref = some l → ref.home ≠ lib.nextId :=
    fun ref l hl => Library.home_ne_nextId hl
  have hlayout : ∀ m ∈ deps, ∀ ref, ref.home = m.id → (m.layout? ref.name).isSome = true →
      ∃ l, lib.layouts.find? ref = some l :=
    fun m hm ref hhome hlayout => Library.exists_layout (hdeps m hm) hhome hlayout
  rw [((Scenery.ofUnit lib.nextId deps root).outline_ofUnit ho).1] at hall
  obtain ⟨done, form, fields, hlaid, hform, hname, hfields, hnone⟩ := layOutAll_oversized hall
  refine ⟨done, form, fields, hlaid, hform, hname, hfields, ?_⟩
  have hgrounded' := hlaid.grounded houtlines hother hlayout hgrounded
  refine Layout.size_le_of_ofFields?_eq_none (hlaid.regular houtlines hother hgrounded hregular)
    (fun f hf => ?_) hnone
  obtain ⟨tree, -, hof⟩ := exists_of_forall₂ hfields hf
  exact hof.grounded houtlines hother hlayout hgrounded'

end Lowered

/-! ## Workspaces -/

namespace Workspace

variable {w : Workspace} {deps : List Module}

/-- **All layouts of a used workspace are regular.** -/
theorem Used.regular (h : w.Used) : w.library.layouts.Regular := by
  refine h.library_induction (motive := fun lib => lib.layouts.Regular) ?_
    fun hused hlib hdeps hlower => regular_of_lowerUnit hdeps hused.linked.grounded hlib hlower
  -- the base library has no structs
  intro ref l hl
  exact ((Library.grounded_initial ref l hl : (Ty.struct ref).Grounded _ 0)).elim

/-- The unit of the tree does not compile, and nothing changes. It is refused by lowering, or the
host gives up on it as it has a struct that takes more than can be counted. -/
def Refuses (w : Workspace) (unit : SourceUnit) (deps : List Module) (root : Tree) : Prop :=
  (∃ e cause, (Work.compile unit deps).run w = .ok (.error e) w ∧ e.fault = .lowering cause) ∨
    (Work.compile unit deps).run w = .error .oversized w ∧ ∃ struct, Vast w.library deps root struct

/-- What is not lowered is refused. -/
theorem Used.refuses (h : w.Used) (hdeps : ∀ d ∈ deps, w.library.find? d.id = some d)
    {unit : SourceUnit} {f : Fragment} (hread : unit.read = .ok f) {e : LoweringError}
    (hlower : lowerUnit w.library unit.name deps f.root = .error e) :
    w.Refuses unit deps f.root := by
  have hunit := Work.lower_of_read hread w.library deps
  rw [hlower] at hunit
  have hrun := Work.run_compile_refused hunit
  unfold Work.refusal at hrun
  split at hrun
  · rename_i halt hhalt
    unfold CompileFault.halt? at hhalt
    split at hhalt
    · rename_i struct hfault
      cases hhalt
      obtain ⟨fault, s⟩ := e
      cases hfault
      exact .inr ⟨hrun, struct, vast_of_oversized hdeps h.linked.grounded h.regular hlower⟩
    · cases hhalt
  · exact .inl ⟨_, _, hrun, rfl⟩

end Workspace

end Kiln
