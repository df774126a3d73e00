import Groundplan.Json
import Groundplan.Value
/-!
Data: what expressions compute with. Unlike a value, a datum is always known,
and its objects keep the order in which their keys were written; the order
shows in loops and texts but not in comparisons.
-/

namespace Groundplan

/-- A known value inside the evaluation of an expression. -/
inductive Datum where
  | null
  | bool (value : Bool)
  | number (value : Number)
  | string (value : String)
  | list (items : List Datum)
  | object (fields : List (String × Datum))
deriving Inhabited

namespace Datum

def kind : Datum → String
  | null => "null"
  | bool _ => "bool"
  | number _ => "number"
  | string _ => "string"
  | list _ => "list"
  | object _ => "object"

def ofNat (value : Nat) : Datum := number (.ofNat value)

def asNumber? : Datum → Option Number
  | number value => some value
  | _ => none

/-! ## Fields -/

/-- Store `value` under `key`; a new key goes to the end. -/
def insertField (key : String) (value : Datum) : List (String × Datum) → List (String × Datum)
  | [] => [(key, value)]
  | (other, old) :: rest =>
      if other = key then (key, value) :: rest else (other, old) :: insertField key value rest

def hasField (key : String) (fields : List (String × Datum)) : Bool :=
  (fields.lookup key).isSome

/-! ## Equality -/

mutual

/-- Equality of data; the order of the keys of an object is of no account. -/
def equal : Datum → Datum → Bool
  | null, null => true
  | bool left, bool right => left == right
  | number left, number right => left.equal right
  | string left, string right => left == right
  | list left, list right => equalItems left right
  | object left, object right => left.length == right.length && equalFields left right
  | _, _ => false

def equalItems : List Datum → List Datum → Bool
  | [], [] => true
  | left :: lefts, right :: rights => equal left right && equalItems lefts rights
  | _, _ => false

/-- Whether every field of the left object is in the right one. -/
def equalFields : List (String × Datum) → List (String × Datum) → Bool
  | [], _ => true
  | (key, left) :: rest, right =>
      (match right.lookup key with
        | some other => equal left other
        | none => false) && equalFields rest right

end

/-! ## Text -/

/-- Whether a text holds the start of an interpolation or a directive that is
not doubled. -/
private def hasMarker : List Char → Bool
  | '$' :: '$' :: '{' :: rest => hasMarker rest
  | '%' :: '%' :: '{' :: rest => hasMarker rest
  | '$' :: '{' :: _ => true
  | '%' :: '{' :: _ => true
  | _ :: rest => hasMarker rest
  | [] => false

private def doubleMarkers : List Char → List Char
  | '$' :: '{' :: rest => '$' :: '$' :: '{' :: doubleMarkers rest
  | '%' :: '{' :: rest => '%' :: '%' :: '{' :: doubleMarkers rest
  | c :: rest => c :: doubleMarkers rest
  | [] => []

/-- A string between quotes. A text of more than two bytes that holds a marker
is taken for a template and stands as it is; any other text is escaped. -/
def quote (text : String) : String :=
  let chars := text.toList
  if text.utf8ByteSize > 2 && hasMarker chars then "\"" ++ text ++ "\""
  else String.ofList ('"' :: (doubleMarkers chars).flatMap Json.escapeChar ++ ['"'])

/-- A line break and two blanks for each level. -/
private def lineBreak (level : Nat) : String :=
  String.ofList ('\n' :: List.replicate (2 * level) ' ')

mutual

/-- The text of a datum in the configuration language, indented by `level`. -/
def textAt (level : Nat) : Datum → String
  | null => "null"
  | bool value => if value then "true" else "false"
  | number value => value.text
  | string value => quote value
  | list [] => "[]"
  | list (item :: rest) =>
      "[" ++ lineBreak (level + 1) ++
        ("," ++ lineBreak (level + 1)).intercalate (itemTexts (level + 1) (item :: rest)) ++
        lineBreak level ++ "]"
  | object [] => "\x7b\x7d"
  | object (field :: rest) =>
      "\x7b" ++ lineBreak (level + 1) ++
        (lineBreak (level + 1)).intercalate (fieldTexts (level + 1) (field :: rest)) ++
        lineBreak level ++ "\x7d"

def itemTexts (level : Nat) : List Datum → List String
  | [] => []
  | item :: rest => textAt level item :: itemTexts level rest

def fieldTexts (level : Nat) : List (String × Datum) → List String
  | [] => []
  | (key, value) :: rest => (quote key ++ " = " ++ textAt level value) :: fieldTexts level rest

end

def text (datum : Datum) : String := textAt 0 datum

/-! ## Documents -/

mutual

/-- The document of a datum; the fields of objects keep their order. -/
def toJson : Datum → Json
  | null => .null
  | bool value => .bool value
  | number value => .number value
  | string value => .string value
  | list items => .array (toJsonItems items)
  | object fields => .object (toJsonFields fields)

def toJsonItems : List Datum → List Json
  | [] => []
  | item :: rest => toJson item :: toJsonItems rest

def toJsonFields : List (String × Datum) → List (String × Json)
  | [] => []
  | (key, value) :: rest => (key, toJson value) :: toJsonFields rest

end

/-! ## Values -/

mutual

def toValue : Datum → Value
  | null => .null
  | bool value => .bool value
  | number value => .number value
  | string value => .string value
  | list items => .list (toValueItems items)
  | object fields => .ofEntries (toValueFields fields)

def toValueItems : List Datum → List Value
  | [] => []
  | item :: rest => toValue item :: toValueItems rest

def toValueFields : List (String × Datum) → List (String × Value)
  | [] => []
  | (key, value) :: rest => (key, toValue value) :: toValueFields rest

end

mutual

/-- The datum of a value; what is unknown becomes null. -/
def ofValue : Value → Datum
  | .null => null
  | .unknown => null
  | .bool value => bool value
  | .number value => number value
  | .string value => string value
  | .list items => list (ofValueItems items)
  | .object fields => object (ofValueFields fields)

def ofValueItems : List Value → List Datum
  | [] => []
  | item :: rest => ofValue item :: ofValueItems rest

def ofValueFields : List (String × Value) → List (String × Datum)
  | [] => []
  | (key, value) :: rest => (key, ofValue value) :: ofValueFields rest

end

example : (list [ofNat 1, null]).text = "[\n  1,\n  null\n]" := by rfl

end Datum

end Groundplan
