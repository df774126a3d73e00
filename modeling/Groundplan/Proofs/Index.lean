import Groundplan.Analysis
import Groundplan.Proofs.Tables
/-!
The terms of a module tree. Every term has a path of one of three shapes, and
the analysis of a tree lists the dependencies of exactly its terms.
-/

namespace Groundplan

/-- The paths that terms have in their modules. -/
inductive TermPath : LocalName → Prop where
  | pair (kind label : String) : TermPath [kind, label]
  | data (resourceType label : String) : TermPath ["data", resourceType, label]
  | input (call argument : String) : TermPath ["input", call, argument]

namespace TermPath

theorem ne_nil {path : LocalName} (shape : TermPath path) : path ≠ [] := by
  cases shape <;> simp

theorem length_le {path : LocalName} (shape : TermPath path) : path.length ≤ 3 := by
  cases shape <;> simp

/-- Only data sources and inputs have paths of more than two keys. -/
theorem head_of_three {first second third : String} {rest : LocalName}
    (shape : TermPath (first :: second :: third :: rest)) :
    first = "data" ∨ first = "input" := by
  cases shape with
  | data => exact Or.inl rfl
  | input => exact Or.inr rfl

end TermPath

namespace ModuleTree

private theorem termPath_of_mem_ownItems {tree : ModuleTree} {name : ModuleName}
    {own : FullName} {term : Term} (member : .term own term ∈ tree.ownItems name) :
    TermPath own.path := by
  simp only [ownItems, List.mem_cons, List.mem_append, List.mem_map, List.mem_flatMap,
    reduceCtorEq, false_or, ModuleItem.term.injEq, List.not_mem_nil, or_false] at member
  rcases member with
    ((((⟨_, _, same, _⟩ | ⟨_, _, same, _⟩) | ⟨resource, _, same, _⟩) | ⟨_, _, same, _⟩) |
      ⟨_, _, same, _⟩) | ⟨_, _, _, _, same, _⟩
  · exact same ▸ .pair _ _
  · exact same ▸ .pair _ _
  · subst same
    cases isData : resource.isData with
    | true => simpa [Resource.path, isData] using TermPath.data _ _
    | false => simpa [Resource.path, isData] using TermPath.pair _ _
  · exact same ▸ .pair _ _
  · exact same ▸ .pair _ _
  · exact same ▸ .input _ _

mutual

theorem termPath_of_mem_itemsAt {name : ModuleName} {own : FullName} {term : Term} :
    (tree : ModuleTree) → .term own term ∈ tree.itemsAt name → TermPath own.path
  | ⟨site, content, calls, given, variableProblems⟩, member => by
      rw [itemsAt] at member
      rcases List.mem_append.mp member with member | member
      · exact termPath_of_mem_ownItems member
      · rcases List.mem_flatten.mp member with ⟨items, listed, member⟩
        rcases List.mem_map.mp listed with ⟨entry, inTable, same⟩
        subst same
        exact termPath_of_mem_childItems calls entry (Table.mem_of_mem_ofList inTable) member

theorem termPath_of_mem_childItems {name : ModuleName} {own : FullName} {term : Term} :
    (calls : List (ModuleCall × CallResult ModuleTree)) → ∀ entry ∈ childItems name calls,
      .term own term ∈ entry.2 → TermPath own.path
  | [], _, listed, _ => by simp [childItems] at listed
  | (call, .loaded child) :: rest, entry, listed, member => by
      rw [childItems] at listed
      rcases List.mem_cons.mp listed with same | listed
      · subst same
        exact termPath_of_mem_itemsAt child member
      · exact termPath_of_mem_childItems rest entry listed member
  | (_, .noSource) :: rest, entry, listed, member => by
      exact termPath_of_mem_childItems rest entry (by simpa [childItems] using listed) member
  | (_, .notInstalled _) :: rest, entry, listed, member => by
      exact termPath_of_mem_childItems rest entry (by simpa [childItems] using listed) member
  | (_, .cyclic _) :: rest, entry, listed, member => by
      exact termPath_of_mem_childItems rest entry (by simpa [childItems] using listed) member
  | (_, .failed _) :: rest, entry, listed, member => by
      exact termPath_of_mem_childItems rest entry (by simpa [childItems] using listed) member

end

/-- A result that passes a check is there. -/
theorem exists_of_check {α : Type} (result : Except Failure α) (check : α → Bool)
    (checked : result.toOption.any check = true) :
    ∃ value, result = .ok value ∧ check value = true := by
  cases result with
  | error => cases checked
  | ok value => exact ⟨value, rfl, checked⟩

/-- The tree of a root module with one file. -/
def ofText (text : String) : Except Failure ModuleTree :=
  load (Files.ofList [("/r/main.tf", text)]) [] "/r" .empty

theorem exists_ofText (text : String) (check : ModuleTree → Bool)
    (checked : (ofText text).toOption.any check = true) :
    ∃ tree, ofText text = .ok tree ∧ check tree = true :=
  exists_of_check (ofText text) check checked

end ModuleTree

namespace Analysis

/-- The names of all terms. -/
def names (analysis : Analysis) : List FullName := Table.keys analysis.terms

variable (tree : ModuleTree)

theorem ofTree_dependencies :
    (ofTree tree).dependencies = dependenciesOf (ofTree tree).terms := rfl

theorem ordered_terms : Table.Ordered (ofTree tree).terms := Table.ordered_ofList _

theorem keys_dependenciesOf (terms : NameTable Term) :
    Table.keys (dependenciesOf terms) = Table.keys terms := by
  simp [dependenciesOf, Table.keys, Function.comp_def]

theorem keys_dependencies : Table.keys (ofTree tree).dependencies = (ofTree tree).names :=
  keys_dependenciesOf _

theorem termPath_of_mem_names {name : FullName} (member : name ∈ (ofTree tree).names) :
    TermPath name.path := by
  rcases Table.exists_find?_of_mem_keys member with ⟨term, found⟩
  have listed := Table.mem_of_mem_ofList (Table.mem_of_find? found)
  rcases List.mem_filterMap.mp listed with ⟨item, visited, taken⟩
  cases item with
  | module => simp at taken
  | resource => simp at taken
  | term own given =>
      simp only [Option.some.injEq, Prod.mk.injEq] at taken
      rcases taken with ⟨same, _⟩
      subst same
      exact ModuleTree.termPath_of_mem_itemsAt tree visited

/-- The dependencies of a term are those of its references. -/
theorem dependenciesFor_eq {name : FullName} {term : Term}
    (found : Table.find? name (ofTree tree).terms = some term) :
    (ofTree tree).dependenciesFor name =
      Dependency.ofTerm (ofTree tree).terms name.module term := by
  have listed := Table.find?_map
    (fun key => Dependency.ofTerm (ofTree tree).terms key.module) name (ofTree tree).terms
  rw [dependenciesFor, ofTree_dependencies, dependenciesOf, listed, found]
  rfl

end Analysis

end Groundplan
