import Groundplan.Dependency
import Groundplan.Graph
import Groundplan.Module.Walk
/-!
The analysis of a module tree: its modules, resources and terms by name, and the
dependencies of every term. It gives the order in which the terms are evaluated.
-/

namespace Groundplan

structure Analysis where
  modules : Table ModuleName ModuleDetails
  resources : NameTable ResourceDetails
  terms : NameTable Term
  dependencies : NameTable (List Dependency)
  loadProblems : List Problem

/-- The order of the terms, and the keys that do not read back as the name of
the term that they were written for. -/
structure Schedule where
  order : List FullName
  badKeys : List String
deriving DecidableEq

namespace Analysis

def modulesOf (items : List ModuleItem) : Table ModuleName ModuleDetails :=
  Table.ofList (items.filterMap fun
    | .module name details => some (name, details)
    | _ => none)

def resourcesOf (items : List ModuleItem) : NameTable ResourceDetails :=
  Table.ofList (items.filterMap fun
    | .resource name details => some (name, details)
    | _ => none)

def termsOf (items : List ModuleItem) : NameTable Term :=
  Table.ofList (items.filterMap fun
    | .term name term => some (name, term)
    | _ => none)

def dependenciesOf (terms : NameTable Term) : NameTable (List Dependency) :=
  terms.map fun entry => (entry.1, Dependency.ofTerm terms entry.1.module entry.2)

def ofTree (tree : ModuleTree) : Analysis :=
  let items := tree.items
  let terms := termsOf items
  { modules := modulesOf items
    resources := resourcesOf items
    terms := terms
    dependencies := dependenciesOf terms
    loadProblems := tree.problems }

/-- The module with a printed name. -/
def moduleByText? (analysis : Analysis) (text : String) : Option ModuleDetails :=
  (List.find? (fun entry => ModuleName.text entry.1 == text) analysis.modules).map Prod.snd

def resourceByText? (analysis : Analysis) (text : String) : Option ResourceDetails :=
  match FullName.read text with
  | .ok name => Table.find? name analysis.resources
  | .error _ => none

def dependenciesFor (analysis : Analysis) (name : FullName) : List Dependency :=
  (Table.find? name analysis.dependencies).getD []

/-- The printed names of references to nothing, in order. -/
def missingTerms (analysis : Analysis) : List String :=
  (analysis.dependencies.flatMap Prod.snd).foldl
    (fun taken dependency =>
      if dependency.source?.isNone then Table.insertKey dependency.destination.text taken
      else taken) []

/-! ## Order -/

/-- Add the edge of a dependency of `name`, unless it is on the term itself. -/
def addSource (name : FullName) (graph : Graph) (dependency : Dependency) : Graph :=
  match dependency.source? with
  | some source => if source = name then graph else graph.addEdge source.text name.text
  | none => graph

/-- Add a term to a graph, with an edge from every other term it depends on. -/
def addTerm (graph : Graph) (name : FullName) (dependencies : List Dependency) : Graph :=
  dependencies.foldl (addSource name) (graph.addNode name.text)

def graph (analysis : Analysis) : Graph :=
  analysis.dependencies.foldl (fun graph entry => addTerm graph entry.1 entry.2) Graph.empty

/-- The term that a key reads back as. -/
def termOfKey? (analysis : Analysis) (key : String) : Option FullName :=
  match FullName.read key with
  | .ok name => if Table.has name analysis.dependencies then some name else none
  | .error _ => none

/-- The order of evaluation of all terms, or the keys of the terms that no order
can reach. -/
def schedule (analysis : Analysis) : Except (List String) Schedule := do
  let keys ← analysis.graph.order
  return ⟨keys.filterMap analysis.termOfKey?,
    keys.filter fun key => (analysis.termOfKey? key).isNone⟩

end Analysis

end Groundplan
