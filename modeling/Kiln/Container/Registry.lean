import Kiln.NameMap
import Kiln.Typing.Ty
/-!
# The container registry

Which module a container was generated as, by the container's name: wrappers that
count their owners, and arrays by the module of their operations. An array is entered
twice, for each array is such a wrapper too.
-/

namespace Kiln

/-- The modules of the containers. -/
structure Registry where
  wrappers : NameMap ModuleId
  arrays : NameMap ModuleId
  deriving Repr, Inhabited

namespace Registry

/-- No container. -/
def empty : Registry := ⟨.empty, .empty⟩

/-- Without the containers whose modules are gone; their names are free again. -/
def forget (r : Registry) (gone : List ModuleId) : Registry :=
  ⟨r.wrappers.filter (!gone.contains ·), r.arrays.filter (!gone.contains ·)⟩

end Registry

end Kiln
