import Groundplan.Expression
import Groundplan.Name
/-!
The references of an expression: what it reads from outside. Names that a loop
binds are not references inside that loop.
-/

namespace Groundplan

structure Reference where
  /-- The variable and every step after it that is known without evaluation. -/
  accessor : Accessor
  /-- The attributes that are read right after the first step that is not known,
  such as `id` in `instances[*].id`. -/
  relative : LocalName
deriving DecidableEq

namespace Reference

def root (reference : Reference) : String :=
  match reference.accessor with
  | .key name :: _ => name
  | _ => ""

end Reference

namespace TraversalStep

/-- The segment of a step that is known without evaluation. -/
def segment? : TraversalStep → Option Segment
  | member name => some (.key name)
  | index (.string key) => some (.key key)
  | index (.number value) => (value.asUnsigned?).map .index
  | position value => some (.index value)
  | _ => none

end TraversalStep

namespace Reference

/-- The attributes at the start of the steps after the known ones. Steps that
are not known are passed over until the first attribute. -/
private def relativeKeys (started : Bool) : List TraversalStep → LocalName
  | [] => []
  | step :: rest =>
      match step.segment? with
      | some (.key name) => name :: relativeKeys true rest
      | some (.index _) => []
      | none => if started then [] else relativeKeys false rest

/-- The reference that reads `steps` from the variable `name`. -/
def ofSteps (name : String) (steps : List TraversalStep) : Reference :=
  let isKnown (step : TraversalStep) : Bool := step.segment?.isSome
  { accessor := .key name :: (steps.takeWhile isKnown).filterMap TraversalStep.segment?
    relative := relativeKeys false (steps.dropWhile isKnown) }

end Reference

namespace LoopNames

def all (names : LoopNames) : List String := names.key.toList ++ [names.value]

end LoopNames

namespace Expression

/-- A reference to `name`, unless the name is bound. -/
def readFrom (bound : List String) (name : String) (steps : List TraversalStep) :
    List Reference :=
  if bound.contains name then [] else [.ofSteps name steps]

mutual

/-- The references of an expression in which the names `bound` are bound. -/
def referencesIn (bound : List String) : Expression → List Reference
  | null => []
  | bool _ => []
  | number _ => []
  | string _ => []
  | list items => referencesInItems bound items
  | object items => referencesInObject bound items
  | template parts => referencesInParts bound parts
  | read name => readFrom bound name []
  | traversal (read name) steps =>
      readFrom bound name steps ++ referencesInSteps bound steps
  | traversal base steps => referencesIn bound base ++ referencesInSteps bound steps
  | call _ arguments _ => referencesInItems bound arguments
  | group inner => referencesIn bound inner
  | conditional condition whenTrue whenFalse =>
      referencesIn bound condition ++ referencesIn bound whenTrue ++ referencesIn bound whenFalse
  | unary _ operand => referencesIn bound operand
  | binary _ left right => referencesIn bound left ++ referencesIn bound right
  | listLoop names collection result condition =>
      referencesIn bound collection ++ referencesIn (bound ++ names.all) result ++
        referencesIn (bound ++ names.all) condition
  | objectLoop names collection key value condition _ =>
      referencesIn bound collection ++ referencesIn (bound ++ names.all) key ++
        referencesIn (bound ++ names.all) value ++ referencesIn (bound ++ names.all) condition

def referencesInItems (bound : List String) : List Expression → List Reference
  | [] => []
  | item :: rest => referencesIn bound item ++ referencesInItems bound rest

def referencesInObject (bound : List String) : List ObjectItem → List Reference
  | [] => []
  | .named _ value :: rest => referencesIn bound value ++ referencesInObject bound rest
  | .computed key value :: rest =>
      referencesIn bound key ++ referencesIn bound value ++ referencesInObject bound rest

/-- The references of the positions that steps compute. -/
def referencesInSteps (bound : List String) : List TraversalStep → List Reference
  | [] => []
  | .index position :: rest => referencesIn bound position ++ referencesInSteps bound rest
  | _ :: rest => referencesInSteps bound rest

def referencesInParts (bound : List String) : List TemplatePart → List Reference
  | [] => []
  | .literal _ :: rest => referencesInParts bound rest
  | .interpolation value :: rest => referencesIn bound value ++ referencesInParts bound rest
  | .choice condition whenTrue whenFalse :: rest =>
      referencesIn bound condition ++ referencesInParts bound whenTrue ++
        referencesInParts bound whenFalse ++ referencesInParts bound rest
  | .loop names collection body :: rest =>
      referencesIn bound collection ++ referencesInParts (bound ++ names.all) body ++
        referencesInParts bound rest

end

/-- The references of an expression, in the order in which it reads them. -/
def references (expression : Expression) : List Reference := referencesIn [] expression

example : (traversal (read "web") [.fullSplat, .member "id"]).references =
    [⟨[.key "web"], ["id"]⟩] := by decide

end Expression

end Groundplan
