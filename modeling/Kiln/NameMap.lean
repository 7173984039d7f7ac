/-!
# Maps from names, in the order of the names

A `NameMap` lists its entries by increasing name, so that whatever is reported about
several entries is reported in that order. Inserting replaces what the name had.
-/

namespace Kiln

/-- Entries by increasing name. -/
structure NameMap (α : Type) where
  /-- The entries. -/
  entries : List (String × α)
  deriving Repr

namespace NameMap

variable {α : Type}

/-- No entry. -/
def empty : NameMap α := ⟨[]⟩

instance : Inhabited (NameMap α) := ⟨empty⟩

/-- Insertion into a list that is sorted by name. -/
def insertSorted (name : String) (value : α) : List (String × α) → List (String × α)
  | [] => [(name, value)]
  | e :: es =>
    if name = e.1 then (name, value) :: es
    else if name < e.1 then (name, value) :: e :: es
    else e :: insertSorted name value es

/-- Gives a name its value, in place of any it had. -/
def insert (m : NameMap α) (name : String) (value : α) : NameMap α :=
  ⟨insertSorted name value m.entries⟩

/-- The value a name has. -/
def find? (m : NameMap α) (name : String) : Option α := m.entries.lookup name

/-- Whether a name has a value. -/
def contains (m : NameMap α) (name : String) : Bool := (m.find? name).isSome

/-- The names, in order. -/
def names (m : NameMap α) : List String := m.entries.map (·.1)

/-- The entries whose values are kept. -/
def filter (m : NameMap α) (keep : α → Bool) : NameMap α := ⟨m.entries.filter fun e => keep e.2⟩

/-- The map without a name. -/
def erase (m : NameMap α) (name : String) : NameMap α :=
  ⟨m.entries.filter fun e => e.1 != name⟩

/-- The map of a list of entries, in which a later entry replaces an earlier one. -/
def ofList (es : List (String × α)) : NameMap α :=
  es.foldl (fun m e => m.insert e.1 e.2) empty

theorem lookup_insertSorted (name other : String) (value : α) (es : List (String × α)) :
    (insertSorted name value es).lookup other =
      if other = name then some value else es.lookup other := by
  induction es with
  | nil => grind [insertSorted]
  | cons e es ih => grind [insertSorted]

/-- What is found after an insertion. -/
@[simp] theorem find?_insert (m : NameMap α) (name other : String) (value : α) :
    (m.insert name value).find? other = if other = name then some value else m.find? other :=
  lookup_insertSorted name other value m.entries

@[simp] theorem find?_empty (name : String) : (empty : NameMap α).find? name = none := rfl

end NameMap

end Kiln
