import Groundplan.Expression.Evaluation
import Groundplan.Problem
import Groundplan.Value.Tree
/-!
Evaluation against a value. A failure does not end an evaluation: the value is
null then and a diagnostic says why. An expression that reads something unknown
is unknown without being evaluated.
-/

namespace Groundplan

/-- A value and what went wrong on the way to it. -/
structure Outcome where
  value : Value
  diagnostics : List Diagnostic

/-- A way to evaluate an expression against the object of its variables. -/
abbrev Evaluator := Expression → Value → Outcome

namespace Expression

/-- Whether an expression refers to something unknown. -/
def readsUnknown (expression : Expression) (scope : Value) : Bool :=
  expression.references.any fun reference => scope.reachesUnknown reference.accessor

/-- Evaluate an expression against the object of its variables. -/
def evaluateIn : Evaluator := fun expression scope =>
  if expression.readsUnknown scope then ⟨.unknown, []⟩
  else
    match expression.evaluate (scopeOf scope) with
    | .ok datum => ⟨datum.toValue, []⟩
    | .error error => ⟨.null, [error.message]⟩

/-- The value of an expression that reads no variables. -/
def literalValue (expression : Expression) : Except Diagnostic Value :=
  let outcome := expression.evaluateIn (.object [])
  match outcome.diagnostics.getLast? with
  | some diagnostic => .error diagnostic
  | none => .ok outcome.value

end Expression

end Groundplan
