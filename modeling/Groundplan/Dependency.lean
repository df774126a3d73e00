import Groundplan.NameTable
import Groundplan.Term
/-!
Dependencies: how the references of a term get their values. A reference reads
the term whose path is the longest start of its own, or crosses a module
boundary to an output of a called module or to the input of the call of its own
module, or is missing.
-/

namespace Groundplan

inductive Origin where
  | term (name : FullName)
  /-- Nothing has the name of the reference, and its text stands for its value. -/
  | placeholder (text : String)
deriving DecidableEq

/-- A reference of a term, as the name under which the term finds its value. -/
structure Dependency where
  destination : FullName
  origin : Origin
deriving DecidableEq

namespace Dependency

def source? (dependency : Dependency) : Option FullName :=
  match dependency.origin with
  | .term name => some name
  | .placeholder _ => none

/-- Whether the value has to be brought to the destination and is not there
already. -/
def isRemapped (dependency : Dependency) : Bool := dependency.source? != some dependency.destination

/-- The first keys of references whose values every scope has or the term itself
binds. -/
def contextRoots : List String := ["path", "terraform", "self", "count", "each"]

def toTerm? (terms : NameTable Term) (target : FullName) : Option Dependency :=
  (NameTable.longestStart? terms target).map fun found => ⟨found.1, .term found.1⟩

def toOutput? (terms : NameTable Term) (target : FullName) : Option Dependency := do
  let output ← target.asModuleOutput?
  let (found, _) ← NameTable.longestStart? terms output
  return ⟨⟨target.module, target.path.take 2 ++ found.path.drop 1⟩, .term found⟩

/-- A reference to a variable: to the input of the call if the call passes one,
and otherwise to the definition of the variable. -/
def toVariable? (terms : NameTable Term) (target : FullName) : Option Dependency := do
  let parts ← target.asVariable?
  let passed := parts.reference.asModuleInput?.filter fun input => Table.has input terms
  match passed with
  | some input => some ⟨parts.reference, .term input⟩
  | none =>
      if Table.has parts.definition terms then
        some ⟨parts.reference, .term parts.definition⟩
      else none

def missing (target : FullName) : Dependency := ⟨target, .placeholder target.path.text⟩

/-- The name that a reference of a term asks for. -/
def target (module : ModuleName) (reference : Reference) : FullName :=
  ⟨module, (Accessor.splitKeys reference.accessor).1⟩

/-- The dependency of a reference in a module, unless the scope has its value. -/
def resolve? (terms : NameTable Term) (module : ModuleName) (reference : Reference) :
    Option Dependency :=
  if contextRoots.contains reference.root then none
  else
    let wanted := target module reference
    some (((toTerm? terms wanted).or ((toOutput? terms wanted).or (toVariable? terms wanted))).getD
      (missing wanted))

/-- The dependencies of a term in a module, each one once, in order. -/
def ofTerm (terms : NameTable Term) (module : ModuleName) (term : Term) : List Dependency :=
  (term.dependencies.filterMap (resolve? terms module)).foldl
    (fun taken dependency =>
      if taken.contains dependency then taken else taken ++ [dependency]) []

end Dependency

end Groundplan
