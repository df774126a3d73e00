import Groundplan.Numeric.Number
import Groundplan.Table
/-!
Values of an evaluation. The unknown value stands for what cannot be determined
from the configuration alone, such as a variable without a default.
-/

namespace Groundplan

/-- A value of an evaluation. The fields of an object are a table. -/
inductive Value where
  | null
  | bool (value : Bool)
  | number (value : Number)
  | string (value : String)
  | list (items : List Value)
  | object (fields : List (String × Value))
  | unknown
deriving BEq, Inhabited

namespace Value

def ofNat (value : Nat) : Value := number (.ofNat value)

def kind : Value → String
  | null => "null"
  | bool _ => "bool"
  | number _ => "number"
  | string _ => "string"
  | list _ => "list"
  | object _ => "object"
  | unknown => "unknown"

def isUnknown : Value → Bool
  | unknown => true
  | _ => false

def isObject : Value → Bool
  | object _ => true
  | _ => false

def asString? : Value → Option String
  | string value => some value
  | _ => none

def asList? : Value → Option (List Value)
  | list items => some items
  | _ => none

def asObject? : Value → Option (Table String Value)
  | object fields => some fields
  | _ => none

/-- The object of `entries`; a later entry replaces an earlier one of its key. -/
def ofEntries (entries : List (String × Value)) : Value := object (Table.ofList entries)

mutual

/-- Replace every unknown part by null. -/
def erase : Value → Value
  | unknown => null
  | list items => list (eraseItems items)
  | object fields => object (eraseFields fields)
  | other => other

def eraseItems : List Value → List Value
  | [] => []
  | item :: rest => erase item :: eraseItems rest

def eraseFields : List (String × Value) → List (String × Value)
  | [] => []
  | (key, value) :: rest => (key, erase value) :: eraseFields rest

end

example : erase (list [unknown, ofNat 1]) = list [null, ofNat 1] := by
  simp [erase, eraseItems, ofNat]

end Value

end Groundplan
