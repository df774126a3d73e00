import Groundplan.Function
/-!
Functions over lists and objects.
-/

namespace Groundplan.Function

/-- A function of one list with a list as its result. -/
private def ofList (change : List Datum → List Datum) : Function where
  parameters := [.list]
  further := none
  run := fun arguments => do return .list (change (← listArgument arguments 0))

def length : Function where
  parameters := [.any]
  further := none
  run := fun arguments =>
    match argument arguments 0 with
    | .string text => .ok (.ofNat text.length)
    | .list items => .ok (.ofNat items.length)
    | .object fields => .ok (.ofNat fields.length)
    | other => .error (.noLength other.kind)

def concat : Function where
  parameters := [.list]
  further := some .list
  run := fun arguments => do
    let lists ← (List.range arguments.length).mapM (listArgument arguments)
    return .list lists.flatten

mutual

/-- The items of a datum that is a list, at every depth, or the datum itself. -/
def flattenOne : Datum → List Datum
  | .list items => flattenItems items
  | other => [other]

def flattenItems : List Datum → List Datum
  | [] => []
  | item :: rest => flattenOne item ++ flattenItems rest

end

def flatten : Function := ofList flattenItems

/-- Keep the first of all equal items. -/
def distinctItems (items : List Datum) : List Datum :=
  items.foldl
    (fun kept item => if kept.any fun other => other.equal item then kept else kept ++ [item]) []

def distinct : Function := ofList distinctItems

def contains : Function where
  parameters := [.list, .any]
  further := none
  run := fun arguments => do
    let items ← listArgument arguments 0
    return .bool (items.any fun item => item.equal (argument arguments 1))

def keys : Function where
  parameters := [.any]
  further := none
  run := fun arguments => do
    let fields ← objectArgument arguments 0
    return .list ((Table.keys (Table.ofList fields)).map .string)

def values : Function where
  parameters := [.any]
  further := none
  run := fun arguments => do
    let fields ← objectArgument arguments 0
    return .list (Table.values (Table.ofList fields))

/-- The value under a key, or else the third argument if there is one. -/
def lookup : Function where
  parameters := [.any, .string]
  further := some .any
  run := fun arguments => do
    let fields ← objectArgument arguments 0
    let key ← stringArgument arguments 1
    match fields.lookup key, arguments[2]? with
    | some value, _ => return value
    | none, some other => return other
    | none, none => throw (.missingKey key)

/-- Add the fields of every object; later fields replace earlier ones. -/
def mergeFields (fields : List (String × Datum)) :
    List Datum → Except CallError (List (String × Datum))
  | [] => .ok fields
  | .object more :: rest =>
      mergeFields
        (more.foldl (fun fields field => Datum.insertField field.1 field.2 fields) fields) rest
  | .null :: rest => mergeFields fields rest
  | other :: _ => .error (.noObjectToMerge other.kind)

def merge : Function where
  parameters := []
  further := some .any
  run := fun arguments => (mergeFields [] arguments).map .object

/-- The item at an index, which starts again after the last item. -/
def element : Function where
  parameters := [.list, .number]
  further := none
  run := fun arguments => do
    let items ← listArgument arguments 0
    let index ← wholeArgument arguments 1
    if items.isEmpty then throw .elementOfEmptyList
    if index < 0 then throw .negativeElement
    return (items[index.toNat % items.length]?).getD .null

/-- The items from one index up to but not including another. -/
def slice : Function where
  parameters := [.list, .number, .number]
  further := none
  run := fun arguments => do
    let items ← listArgument arguments 0
    let first ← wholeArgument arguments 1
    let last ← wholeArgument arguments 2
    if first < 0 || last > items.length || first > last then
      throw (.sliceOutOfBounds first last items.length)
    return .list ((items.drop first.toNat).take (last - first).toNat)

def reverse : Function := ofList List.reverse

/-- The order of sorting: two strings by their characters, any other pair by
their texts. -/
def sortOrder (left right : Datum) : Bool :=
  match left, right with
  | .string left, .string right => compare left right != .gt
  | _, _ => compare left.text right.text != .gt

def sortItems (items : List Datum) : List Datum := items.mergeSort sortOrder

def sort : Function := ofList sortItems

private def isBlankDatum : Datum → Bool
  | .null => true
  | .string text => text.isEmpty
  | _ => false

/-- The first argument that is neither null nor an empty text. -/
def coalesce : Function where
  parameters := [.any]
  further := some .any
  run := fun arguments => .ok ((arguments.find? fun item => !isBlankDatum item).getD .null)

/-- The items that are neither null nor empty texts. -/
def compact : Function := ofList fun items => items.filter fun item => !isBlankDatum item

def zipFields (fields : List (String × Datum)) :
    List (Datum × Datum) → Except CallError (List (String × Datum))
  | [] => .ok fields
  | (.string key, value) :: rest => zipFields (Datum.insertField key value fields) rest
  | (other, _) :: _ => .error (.noKeyString other.kind)

/-- The object with the keys of one list and the values of another. -/
def zipMap : Function where
  parameters := [.list, .list]
  further := none
  run := fun arguments => do
    let keys ← listArgument arguments 0
    let values ← listArgument arguments 1
    if keys.length != values.length then throw .unequalLengths
    return .object (← zipFields [] (keys.zip values))

end Groundplan.Function
