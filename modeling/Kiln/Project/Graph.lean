import Kiln.Program.Module
/-!
# The module graph

The modules that are loaded. An edge leads from a module to each module it was compiled
against, whether that one is loaded or not; so the edges are the modules' own lists of
dependencies, and nothing has to be kept in step.
-/

namespace Kiln

/-- The loaded modules, by increasing number. -/
structure ModuleGraph where
  modules : List Module
  deriving Repr, Inhabited

namespace ModuleGraph

/-- No module. -/
def empty : ModuleGraph := ⟨[]⟩

/-- Insertion by number, in place of the module that has it. -/
def insertSorted (m : Module) : List Module → List Module
  | [] => [m]
  | n :: ns =>
    if m.id = n.id then m :: ns
    else if m.id.index < n.id.index then m :: n :: ns
    else n :: insertSorted m ns

/-- One module more. -/
def insert (g : ModuleGraph) (m : Module) : ModuleGraph := ⟨insertSorted m g.modules⟩

/-- The module of a number. -/
def get? (g : ModuleGraph) (id : ModuleId) : Option Module := g.modules.find? (·.id = id)

/-- Whether a number is that of a loaded module. -/
def contains (g : ModuleGraph) (id : ModuleId) : Bool := (g.get? id).isSome

/-- The latest module of a name. -/
def find? (g : ModuleGraph) (name : String) : Option Module :=
  g.modules.reverse.find? (·.name = name)

/-- The modules that a loaded module was compiled against. -/
def dependencies (g : ModuleGraph) (id : ModuleId) : List ModuleId :=
  ((g.get? id).map (·.deps)).getD []

/-- The modules that were compiled against a module. -/
def importers (id : ModuleId) (ms : List Module) : List Module := ms.filter (·.deps.contains id)

/-- The modules that were not. -/
def others (id : ModuleId) (ms : List Module) : List Module := ms.filter (!·.deps.contains id)

theorem length_importers_add_length_others (id : ModuleId) (ms : List Module) :
    (importers id ms).length + (others id ms).length = ms.length := by
  induction ms with
  | nil => rfl
  | cons m ms ih =>
    simp only [importers, others, List.filter_cons] at ih ⊢
    cases m.deps.contains id <;>
      simp only [Bool.not_true, Bool.not_false, Bool.false_eq_true, if_true, if_false,
        List.length_cons] <;> omega

/-- The loaded modules that were compiled against a module. -/
def dependents (g : ModuleGraph) (id : ModuleId) : List ModuleId :=
  (importers id g.modules).map (·.id)

/-- The modules among `unseen` that reach a module of the queue, nearest first. Whatever
is found joins the queue and is not looked for again. -/
def reaching (unseen : List Module) : List ModuleId → List ModuleId
  | [] => []
  | current :: queue =>
    let found := (importers current unseen).map (·.id)
    found ++ reaching (others current unseen) (queue ++ found)
termination_by queue => unseen.length + queue.length
decreasing_by
  have := length_importers_add_length_others current unseen
  simp only [List.length_append, List.length_map, List.length_cons]
  omega

/-- Every loaded module that reaches a module by edges, nearest first, without that module
itself. -/
def allDependents (g : ModuleGraph) (id : ModuleId) : List ModuleId :=
  reaching (g.modules.filter (·.id ≠ id)) [id]

/-- The graph without a module and all that reach it, and the modules taken out. -/
def removeWithDependents (g : ModuleGraph) (id : ModuleId) : List Module × ModuleGraph :=
  let doomed := id :: g.allDependents id
  (doomed.filterMap g.get?, ⟨g.modules.filter fun m => !doomed.contains m.id⟩)

end ModuleGraph

end Kiln
