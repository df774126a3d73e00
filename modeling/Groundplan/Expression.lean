import Groundplan.Numeric.Number
/-!
Expressions of the configuration language.
-/

namespace Groundplan

inductive UnaryOperator where
  | negate
  | not
deriving DecidableEq

inductive BinaryOperator where
  | or
  | and
  | equal
  | notEqual
  | less
  | lessOrEqual
  | greater
  | greaterOrEqual
  | add
  | subtract
  | multiply
  | divide
  | remainder
deriving DecidableEq

namespace UnaryOperator

def symbol : UnaryOperator → String
  | negate => "-"
  | not => "!"

end UnaryOperator

namespace BinaryOperator

def symbol : BinaryOperator → String
  | or => "||"
  | and => "&&"
  | equal => "=="
  | notEqual => "!="
  | less => "<"
  | lessOrEqual => "<="
  | greater => ">"
  | greaterOrEqual => ">="
  | add => "+"
  | subtract => "-"
  | multiply => "*"
  | divide => "/"
  | remainder => "%"

/-- How tightly an operator binds its operands. -/
def precedence : BinaryOperator → Nat
  | or => 1
  | and => 2
  | equal | notEqual => 3
  | less | lessOrEqual | greater | greaterOrEqual => 4
  | add | subtract => 5
  | multiply | divide | remainder => 6

end BinaryOperator

/-- The names that a loop binds for every item: one for its value, and one for
its key if the loop asks for it. -/
structure LoopNames where
  key : Option String
  value : String
deriving DecidableEq

mutual

/-- An expression. A condition that a loop does not have is the literal `true`. -/
inductive Expression where
  | null
  | bool (value : Bool)
  | number (value : Number)
  | string (value : String)
  | list (items : List Expression)
  | object (items : List ObjectItem)
  | template (parts : List TemplatePart)
  | read (name : String)
  | traversal (base : Expression) (steps : List TraversalStep)
  /-- A call; `spread` hands on the items of the last argument one by one. -/
  | call (function : String) (arguments : List Expression) (spread : Bool)
  | group (inner : Expression)
  | conditional (condition whenTrue whenFalse : Expression)
  | unary (operator : UnaryOperator) (operand : Expression)
  | binary (operator : BinaryOperator) (left right : Expression)
  | listLoop (names : LoopNames) (collection result condition : Expression)
  /-- A loop that builds an object; when it is `grouped`, the values of one key
  are collected in a list. -/
  | objectLoop (names : LoopNames) (collection key value condition : Expression)
      (grouped : Bool)

/-- An item of an object, with a key that is written as a name or computed. -/
inductive ObjectItem where
  | named (key : String) (value : Expression)
  | computed (key value : Expression)

inductive TraversalStep where
  | member (name : String)
  | index (position : Expression)
  | position (position : Nat)
  /-- `.*` applies the members that follow it to every item. -/
  | memberSplat
  /-- `[*]` applies all steps that follow it to every item. -/
  | fullSplat

/-- A part of a text with expressions in it. -/
inductive TemplatePart where
  | literal (text : String)
  | interpolation (value : Expression)
  | choice (condition : Expression) (whenTrue whenFalse : List TemplatePart)
  | loop (names : LoopNames) (collection : Expression) (body : List TemplatePart)

end

deriving instance BEq for Expression, ObjectItem, TraversalStep, TemplatePart

instance : Inhabited Expression := ⟨.null⟩

namespace Expression

/-- Whether an expression is a call of `function`, in parentheses or not. -/
def isCallTo (function : String) : Expression → Bool
  | call name _ _ => name == function
  | group inner => isCallTo function inner
  | _ => false

end Expression

end Groundplan
