import Groundplan.Expression.References
import Groundplan.Function.Library
import Groundplan.Text.Classes
/-!
Evaluation of expressions. A variable is read only where an expression names it,
from the innermost binding of its name. Both operands of an operator are
evaluated; of a conditional only the branch that is taken.
-/

namespace Groundplan

/-- The variables that an expression can read, the innermost binding first. -/
abbrev Scope := List (String × Datum)

inductive EvaluationError where
  | undefinedVariable (name : String)
  | undefinedFunction (name : String)
  | noKey (key : String)
  | outOfBounds (position : Nat)
  | unexpected (given : Datum) (expected : String)
  | noUnary (operator : UnaryOperator) (operand : Datum)
  | noBinary (operator : BinaryOperator) (left right : Datum)
  | repeatedKey (key : String)
  | failedCall (function : String) (error : CallError)

def EvaluationError.message : EvaluationError → String
  | undefinedVariable name => "undefined variable `" ++ name ++ "`"
  | undefinedFunction name => "undefined function `" ++ name ++ "`"
  | noKey key => "no such key: `" ++ key ++ "`"
  | outOfBounds position => "index out of bounds: " ++ toString position
  | unexpected given expected => "unexpected value `" ++ given.text ++ "`, expected " ++ expected
  | noUnary operator operand =>
      "unary operator `" ++ operator.symbol ++ "` is not applicable to `" ++ operand.text ++ "`"
  | noBinary operator left right =>
      "binary operator `" ++ operator.symbol ++ "` is not applicable to `" ++ left.text ++
        "` and `" ++ right.text ++ "`"
  | repeatedKey key => "key `" ++ key ++ "` already exists"
  | failedCall function error => "error calling function `" ++ function ++ "`: " ++ error.message

abbrev Evaluated (α : Type) := Except EvaluationError α

namespace Datum

/-! ## Operators -/

def applyUnary (operator : UnaryOperator) (operand : Datum) : Evaluated Datum :=
  match operator, operand with
  | .not, bool value => .ok (bool !value)
  | .negate, number value => .ok (number value.neg)
  | _, _ => .error (.noUnary operator operand)

/-- Whether two numbers are in one of the given orders. -/
private def isOrdered (orders : List Ordering) (left right : Number) : Bool :=
  match left.compare? right with
  | some order => orders.contains order
  | none => false

def applyBinary (operator : BinaryOperator) (left right : Datum) : Evaluated Datum :=
  match operator, left, right with
  | .equal, _, _ => .ok (bool (left.equal right))
  | .notEqual, _, _ => .ok (bool !(left.equal right))
  | .and, bool left, bool right => .ok (bool (left && right))
  | .or, bool left, bool right => .ok (bool (left || right))
  | .less, number left, number right => .ok (bool (isOrdered [.lt] left right))
  | .lessOrEqual, number left, number right => .ok (bool (isOrdered [.lt, .eq] left right))
  | .greater, number left, number right => .ok (bool (isOrdered [.gt] left right))
  | .greaterOrEqual, number left, number right => .ok (bool (isOrdered [.gt, .eq] left right))
  | .add, number left, number right => .ok (number (left.add right))
  | .subtract, number left, number right => .ok (number (left.sub right))
  | .multiply, number left, number right => .ok (number (left.mul right))
  | .divide, number left, number right => .ok (number (left.div right))
  | .remainder, number left, number right => .ok (number (left.rem right))
  | _, _, _ => .error (.noBinary operator left right)

/-! ## Steps -/

def member (name : String) (datum : Datum) : Evaluated Datum :=
  match datum with
  | object fields =>
      match fields.lookup name with
      | some value => .ok value
      | none => .error (.noKey name)
  | other => .error (.unexpected other "an object")

def item (position : Nat) (datum : Datum) : Evaluated Datum :=
  match datum with
  | list items =>
      match items[position]? with
      | some value => .ok value
      | none => .error (.outOfBounds position)
  | other => .error (.unexpected other "an array")

def indexed (index datum : Datum) : Evaluated Datum :=
  match index with
  | string key => member key datum
  | number value =>
      match value.asUnsigned? with
      | some position => item position datum
      | none => .error (.unexpected index "an unsigned integer")
  | other => .error (.unexpected other "an unsigned integer or string")

/-- What a splat goes over: the items of a list, nothing for null, and any other
datum by itself. -/
def splatItems : Datum → List Datum
  | list items => items
  | null => []
  | other => [other]

/-! ## Collections -/

/-- The keys and values that a loop goes over. -/
def entries (datum : Datum) : Evaluated (List (Datum × Datum)) :=
  match datum with
  | list items => .ok (items.zipIdx.map fun entry => (ofNat entry.2, entry.1))
  | object fields => .ok (fields.map fun field => (string field.1, field.2))
  | other => .error (.unexpected other "an array or object")

def asBool (datum : Datum) : Evaluated Bool :=
  match datum with
  | bool value => .ok value
  | other => .error (.unexpected other "a boolean")

def asKey (datum : Datum) : Evaluated String :=
  match datum with
  | string value => .ok value
  | bool value => .ok (if value then "true" else "false")
  | number value => .ok value.text
  | other => .error (.unexpected other "a string, boolean or number")

def templateText : Datum → String
  | string value => value
  | other => other.text

/-- Add a value to the list under a key. -/
def addGrouped (key : String) (value : Datum) (fields : List (String × Datum)) :
    List (String × Datum) :=
  match fields.lookup key with
  | some (list items) => insertField key (list (items ++ [value])) fields
  | _ => insertField key (list [value]) fields

end Datum

namespace LoopNames

def bind (names : LoopNames) (entry : Datum × Datum) (scope : Scope) : Scope :=
  match names.key with
  | some key => (names.value, entry.2) :: (key, entry.1) :: scope
  | none => (names.value, entry.2) :: scope

end LoopNames

/-- Where a traversal has come to: one datum, or each item of a splat over
members. -/
inductive Place where
  | one (datum : Datum)
  | each (items : List Datum)

namespace Place

def datum : Place → Datum
  | one datum => datum
  | each items => .list items

/-- Go to a member, in every item of a splat. -/
def member (name : String) : Place → Evaluated Place
  | one datum => (datum.member name).map one
  | each items => (items.mapM (Datum.member name)).map each

end Place

namespace Expression

mutual

def evaluate (scope : Scope) : Expression → Evaluated Datum
  | null => .ok .null
  | bool value => .ok (.bool value)
  | number value => .ok (.number value)
  | string value => .ok (.string value)
  | list items => do return .list (← evaluateItems scope items)
  | object items => do return .object (← evaluateObject scope [] items)
  | template [.interpolation value] => evaluate scope value
  | template parts => do return .string (← evaluateParts scope parts)
  | read name =>
      match scope.lookup name with
      | some value => .ok value
      | none => .error (.undefinedVariable name)
  | traversal base steps => do follow scope (.one (← evaluate scope base)) steps
  | call function arguments spread =>
      match Function.named? function with
      | none => .error (.undefinedFunction function)
      | some found => do
          let given ← evaluateItems scope arguments
          let given ←
            if spread then
              match given.getLast? with
              | some (.list items) => .ok (given.dropLast ++ items)
              | some other => .error (.unexpected other "an array")
              | none => .ok given
            else .ok given
          match found.call given with
          | .ok value => .ok value
          | .error error => .error (.failedCall function error)
  | group inner => evaluate scope inner
  | conditional condition whenTrue whenFalse => do
      if ← (← evaluate scope condition).asBool then evaluate scope whenTrue
      else evaluate scope whenFalse
  | unary operator operand => do Datum.applyUnary operator (← evaluate scope operand)
  | binary operator left right => do
      let left ← evaluate scope left
      let right ← evaluate scope right
      Datum.applyBinary operator left right
  | listLoop names collection result condition => do
      let entries ← (← evaluate scope collection).entries
      let results ← entries.mapM fun entry => do
        let inner := names.bind entry scope
        if ← (← evaluate inner condition).asBool then
          return some (← evaluate inner result)
        else return none
      return .list (results.filterMap id)
  | objectLoop names collection key value condition grouped => do
      let entries ← (← evaluate scope collection).entries
      let fields ← entries.foldlM
        (fun fields entry => do
          let inner := names.bind entry scope
          if ← (← evaluate inner condition).asBool then
            let key ← (← evaluate inner key).asKey
            let value ← evaluate inner value
            if grouped then return Datum.addGrouped key value fields
            else if Datum.hasField key fields then throw (.repeatedKey key)
            else return fields ++ [(key, value)]
          else return fields)
        []
      return .object fields

def evaluateItems (scope : Scope) : List Expression → Evaluated (List Datum)
  | [] => .ok []
  | item :: rest => do
      let value ← evaluate scope item
      return value :: (← evaluateItems scope rest)

/-- The fields of an object after `fields`. A repeated key keeps its place and
takes the later value. -/
def evaluateObject (scope : Scope) (fields : List (String × Datum)) :
    List ObjectItem → Evaluated (List (String × Datum))
  | [] => .ok fields
  | .named key value :: rest => do
      let value ← evaluate scope value
      evaluateObject scope (Datum.insertField key value fields) rest
  | .computed key value :: rest => do
      let key ← (← evaluate scope key).asKey
      let value ← evaluate scope value
      evaluateObject scope (Datum.insertField key value fields) rest

def follow (scope : Scope) (place : Place) : List TraversalStep → Evaluated Datum
  | [] => .ok place.datum
  | .member name :: rest => do follow scope (← place.member name) rest
  | .index position :: rest => do
      let position ← evaluate scope position
      follow scope (.one (← Datum.indexed position place.datum)) rest
  | .position position :: rest => do
      follow scope (.one (← Datum.item position place.datum)) rest
  | .memberSplat :: rest => follow scope (.each place.datum.splatItems) rest
  | .fullSplat :: rest => do
      let items ← place.datum.splatItems.mapM fun item => follow scope (.one item) rest
      return .list items

def evaluateParts (scope : Scope) : List TemplatePart → Evaluated String
  | [] => .ok ""
  | .literal text :: rest => do return text ++ (← evaluateParts scope rest)
  | .interpolation value :: rest => do
      let value ← evaluate scope value
      return value.templateText ++ (← evaluateParts scope rest)
  | .choice condition whenTrue whenFalse :: rest => do
      let chosen ←
        if ← (← evaluate scope condition).asBool then evaluateParts scope whenTrue
        else evaluateParts scope whenFalse
      return chosen ++ (← evaluateParts scope rest)
  | .loop names collection body :: rest => do
      let entries ← (← evaluate scope collection).entries
      let texts ← entries.mapM fun entry => evaluateParts (names.bind entry scope) body
      return String.join texts ++ (← evaluateParts scope rest)

end

/-! ## Scopes of values -/

/-- The identifier that a name is declared as: characters that an identifier
cannot hold become underscores. -/
def identifierOf (name : String) : String :=
  match name.toList with
  | [] => "_"
  | first :: rest =>
      let part (c : Char) : Char := if Text.isIdentifierPart c then c else '_'
      let head :=
        if Text.isIdentifierStart first then [first]
        else if Text.isIdentifierPart first then ['_', first]
        else ['_']
      String.ofList (head ++ rest.map part)

/-- The variables of an object, one for each field. -/
def scopeOf : Value → Scope
  | .object fields =>
      (fields.map fun field => (identifierOf field.1, Datum.ofValue field.2)).reverse
  | _ => []

end Expression

end Groundplan
