import Groundplan.Json
import Groundplan.Value
/-!
Values as JSON documents. The unknown value has no JSON form and is written as
null; everything else is kept.
-/

namespace Groundplan

/-- Take a number for a signed integer if it fits, or else for an unsigned one,
or else for a fraction. What is not finite counts as `missing`. -/
def Number.classify (whole : Int → α) (fraction : Binary64 → α) (missing : α)
    (value : Number) : α :=
  match value.asSigned?, value.asUnsigned? with
  | some signed, _ => whole signed
  | none, some unsigned => whole unsigned
  | none, none => if value.toBinary.isFinite then fraction value.toBinary else missing

namespace Value

/-- A number of the configuration in a document. -/
def numberToJson : Number → Json :=
  Number.classify (fun value => .number (.integer value)) (fun value => .number (.binary value))
    .null

mutual

def toJson : Value → Json
  | null => .null
  | unknown => .null
  | bool value => .bool value
  | number value => numberToJson value
  | string value => .string value
  | list items => .array (toJsonItems items)
  | object fields => .object (toJsonFields fields)

def toJsonItems : List Value → List Json
  | [] => []
  | item :: rest => toJson item :: toJsonItems rest

def toJsonFields : List (String × Value) → List (String × Json)
  | [] => []
  | (key, value) :: rest => (key, toJson value) :: toJsonFields rest

end

/-- A number of a document in the configuration: whole fractions become integers. -/
def numberOfJson : Number → Value :=
  Number.classify (fun value => number (.integer value))
    (fun value => number (.ofBinary value)) null

theorem numberOfJson_eq (value : Number) :
    (∃ kept, numberOfJson value = number kept) ∨ numberOfJson value = null := by
  rw [numberOfJson, Number.classify]
  split
  · exact .inl ⟨_, rfl⟩
  · exact .inl ⟨_, rfl⟩
  · split
    · exact .inl ⟨_, rfl⟩
    · exact .inr rfl

mutual

def ofJson : Json → Value
  | .null => null
  | .bool value => bool value
  | .number value => numberOfJson value
  | .string value => string value
  | .array items => list (ofJsonItems items)
  | .object fields => object (Table.ofList (ofJsonFields fields))

def ofJsonItems : List Json → List Value
  | [] => []
  | item :: rest => ofJson item :: ofJsonItems rest

def ofJsonFields : List (String × Json) → List (String × Value)
  | [] => []
  | (key, value) :: rest => (key, ofJson value) :: ofJsonFields rest

end

/-- The text of a value for a reader: its document, or a mark for the unknown
value. -/
def display : Value → String
  | unknown => "(unknown)"
  | value => value.toJson.compact

example : display (list [unknown]) = "[null]" := by rfl

end Value

end Groundplan
