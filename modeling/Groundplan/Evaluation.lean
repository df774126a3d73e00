import Groundplan.Analysis
import Groundplan.Phantom
/-!
Evaluation of a module tree: one pass over all terms in the order of their
dependencies. Every module has a tree of the values of its terms, which only
grows; a term is evaluated against the tree of its own module and the values
that it reads from other modules.
-/

namespace Groundplan

structure EvaluationState where
  trees : Table ModuleName Value
  /-- The values of terms by printed name, without phantom attributes. -/
  values : Table String Value
  problems : List Problem

structure Evaluation where
  analysis : Analysis
  schedule : Schedule
  state : EvaluationState

namespace EvaluationState

def empty : EvaluationState := ⟨[], [], []⟩

/-- The value tree of a module; an empty object before its first term. -/
def tree (state : EvaluationState) (module : ModuleName) : Value :=
  (Table.find? module state.trees).getD (.object [])

def valueOf (state : EvaluationState) : Origin → Value
  | .term name =>
      match Table.find? name.module state.trees with
      | some tree => tree.lookup name.path
      | none => .null
  | .placeholder text => .string text

/-- The directory of a module as seen from the root module. -/
def relativeDirectory (root directory : String) : String :=
  match Path.relative? root directory with
  | some path => if path.isEmpty then "." else path
  | none => directory

/-- The directory that a module has in its own scope. -/
def modulePath (analysis : Analysis) (module : ModuleName) : String :=
  match Table.find? [] analysis.modules, Table.find? module analysis.modules with
  | some root, some details => relativeDirectory root.directory details.directory
  | _, _ => "."

/-- The values that every scope of a module has. -/
def context (analysis : Analysis) (module : ModuleName) : Value :=
  .object [
    ("path", .object [("cwd", .string "."), ("module", .string (modulePath analysis module)),
      ("root", .string ".")]),
    ("terraform", .object [("workspace", .string "default")])]

/-- The scope of a term: the fixed values, the tree of its module, and the
values that its dependencies bring along, in this order. -/
def scope (analysis : Analysis) (state : EvaluationState) (name : FullName) : Value :=
  ((analysis.dependenciesFor name).filter Dependency.isRemapped).foldl
    (fun scope dependency =>
      scope.graft dependency.destination.path (state.valueOf dependency.origin))
    ((context analysis name.module).merge (state.tree name.module))

/-- The problem of a term that was evaluated with diagnostics. -/
def evaluationProblem? (name : FullName) (diagnostics : List Diagnostic) : Option Problem :=
  if diagnostics.isEmpty then none else some (.evaluation name.text diagnostics)

/-- Evaluate one term and add its value to the tree of its module. -/
def step (analysis : Analysis) (phantom : PhantomAttributes) (evaluator : Evaluator)
    (state : EvaluationState) (name : FullName) : EvaluationState :=
  match Table.find? name analysis.terms with
  | none => state
  | some term =>
      let outcome := term.evaluate evaluator (state.scope analysis name)
      let patched := phantom.patch name outcome.value
      { trees := Table.insert name.module ((state.tree name.module).graft name.path patched)
          state.trees
        values := Table.insert name.text outcome.value state.values
        problems := state.problems ++ (evaluationProblem? name outcome.diagnostics).toList }

end EvaluationState

namespace Evaluation

/-- Evaluate all terms of an analysis. Only a cycle of dependencies keeps it from
being done. -/
def ofAnalysis (evaluator : Evaluator) (analysis : Analysis) : Except Failure Evaluation :=
  match analysis.schedule with
  | .error nodes => .error (.problem (.dependencyCycle nodes))
  | .ok schedule =>
      let phantom := PhantomAttributes.ofTerms analysis.terms
      .ok ⟨analysis, schedule,
        schedule.order.foldl (EvaluationState.step analysis phantom evaluator) .empty⟩

/-- Load and evaluate the module tree in a directory. Also tells what there is to
say about the modules on the way. -/
def loadWithWarnings (files : Files) (root : String) (inputs : VariableInputs) :
    Except Failure Evaluation × List String :=
  let (registry, warnings) := Registry.load files root
  match ModuleTree.load files registry root inputs with
  | .error failure => (.error failure, warnings)
  | .ok tree =>
      (ofAnalysis Expression.evaluateIn (Analysis.ofTree tree), warnings ++ tree.warnings)

def load (files : Files) (root : String) (inputs : VariableInputs) : Except Failure Evaluation :=
  (loadWithWarnings files root inputs).1

/-- The value of a term as it was evaluated, without phantom attributes. -/
def value? (evaluation : Evaluation) (name : FullName) : Option Value :=
  Table.find? name.text evaluation.state.values

def moduleValue? (evaluation : Evaluation) (module : ModuleName) : Option Value :=
  Table.find? module evaluation.state.trees

/-- The problems of loading, of names and of evaluation, in this order. -/
def problems (evaluation : Evaluation) : List Problem :=
  evaluation.analysis.loadProblems ++ evaluation.schedule.badKeys.map .badDependencyKey ++
    evaluation.analysis.missingTerms.map .missingTerm ++ evaluation.state.problems

end Evaluation

end Groundplan
