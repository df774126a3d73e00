import Groundplan.Value
import Groundplan.Name
/-!
Value trees: objects nested along a path. `merge` joins two trees key by key
and prefers the right one wherever they disagree, so a tree only grows.
-/

namespace Groundplan.Value

/-- Wrap `leaf` in one object per segment of `path`. -/
def nest : List String → Value → Value
  | [], leaf => leaf
  | key :: rest, leaf => object [(key, nest rest leaf)]

mutual

/-- The fields of both objects; a field of both is merged, and anything else
is taken from the right. -/
def merge : Value → Value → Value
  | object left, object right => object (mergeFields left right)
  | _, right => right
termination_by _ right => sizeOf right

def mergeFields (left : List (String × Value)) :
    List (String × Value) → List (String × Value)
  | [] => left
  | (key, value) :: rest =>
      let merged :=
        match Table.find? key left with
        | some earlier => merge earlier value
        | none => value
      mergeFields (Table.insert key merged left) rest
termination_by right => sizeOf right

end

/-- The value at the end of `path`. A missing key gives null, and everything
below an unknown value is unknown. -/
def lookup : Value → List String → Value
  | value, [] => value
  | object fields, key :: rest =>
      match Table.find? key fields with
      | some value => lookup value rest
      | none => null
  | unknown, _ :: _ => unknown
  | _, _ :: _ => null
termination_by _ path => path.length

/-- Whether following `segments` runs into an unknown value. -/
def reachesUnknown : Value → List Segment → Bool
  | unknown, _ => true
  | _, [] => false
  | object fields, .key key :: rest =>
      match Table.find? key fields with
      | some value => reachesUnknown value rest
      | none => false
  | list items, .index position :: rest =>
      match items[position]? with
      | some value => reachesUnknown value rest
      | none => false
  | _, _ :: _ => false
termination_by _ segments => segments.length

def graft (tree : Value) (path : List String) (value : Value) : Value :=
  merge tree (nest path value)

example : lookup unknown ["id"] = unknown := by simp [lookup]

end Groundplan.Value
