import Groundplan.Function.Collection
/-!
Functions that convert between kinds of data.
-/

namespace Groundplan.Function

/-- A function of one argument of any kind. -/
def ofAny (run : Datum → Except CallError Datum) : Function where
  parameters := [.any]
  further := none
  run := fun arguments => run (argument arguments 0)

def setItems (items : List Datum) : List Datum := sortItems (distinctItems items)

def toSet : Function := ofAny fun datum =>
  match datum with
  | .list items => .ok (.list (setItems items))
  | .null => .ok (.list [])
  | other => .error (.noConversion other.kind "set")

def toList : Function := ofAny fun datum =>
  match datum with
  | .list items => .ok (.list items)
  | other => .error (.noConversion other.kind "list")

def toMap : Function := ofAny fun datum =>
  match datum with
  | .object fields => .ok (.object fields)
  | .null => .ok (.object [])
  | other => .error (.noConversion other.kind "map")

def toText : Function := ofAny fun datum =>
  match datum with
  | .null => .ok .null
  | other => (plainText other).map .string

/-- An integer of 64 bits with a sign, written in decimal digits. -/
def wholeNumber? (text : List Char) : Option Int :=
  let (negative, digits) := Decimal.spanSign text
  if digits.isEmpty || !digits.all Char.isDigit then none
  else
    let size : Int := Decimal.ofDigits digits
    let value := if negative then -size else size
    if -(signedLimit : Int) ≤ value && value < signedLimit then some value else none

/-- The number that a text is: an integer if it fits, else a finite fraction. -/
def numberOfText? (text : String) : Option Number :=
  match wholeNumber? text.toList with
  | some value => some (.integer value)
  | none =>
      (Decimal.read? text.toList).bind fun value =>
        if value.isFinite then some (.ofBinary value) else none

def toNumber : Function := ofAny fun datum =>
  match datum with
  | .number value => .ok (.number value)
  | .null => .ok .null
  | .string text =>
      match numberOfText? text with
      | some value => .ok (.number value)
      | none => .error (.noNumber text)
  | other => .error (.noConversion other.kind "number")

def toBool : Function := ofAny fun datum =>
  match datum with
  | .bool value => .ok (.bool value)
  | .null => .ok .null
  | .string "true" => .ok (.bool true)
  | .string "false" => .ok (.bool false)
  | other => .error (.noBool other)

end Groundplan.Function
