import Groundplan.Name
import Groundplan.Table
/-!
Tables of named things. Entries are ordered by module and then by path, so a
name comes before every name that it is the start of.
-/

namespace Groundplan

abbrev NameTable (α : Type u) := Table FullName α

namespace NameTable

variable {α : Type u}

/-- The starts of a path that have at least one key, the longest one first. -/
def starts (path : LocalName) : List LocalName :=
  (List.range path.length).reverse.map fun dropped => path.take (dropped + 1)

/-- The entry of the same module whose path is the longest start of the path of
`name`, together with its own name. -/
def longestStart? (table : NameTable α) (name : FullName) : Option (FullName × α) :=
  (starts name.path).findSome? fun path =>
    (Table.find? ⟨name.module, path⟩ table).map fun found => (⟨name.module, path⟩, found)

example : starts ["a", "b"] = [["a", "b"], ["a"]] := by decide

end NameTable

end Groundplan
