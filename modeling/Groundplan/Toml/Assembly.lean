import Groundplan.Toml.Quoted
/-!
Assembly of TOML tables. A table is opened once by a header, or grows by dotted
keys, or comes into being as the home of another table. Items of arrays and
inline tables are closed.
-/

namespace Groundplan.Toml

inductive TableOrigin where
  | header
  /-- As part of the path of a header. -/
  | implied
  /-- As part of a dotted key. -/
  | dotted
deriving DecidableEq

inductive Part where
  | closed (item : Located Toml)
  | table (origin : TableOrigin) (span : Span) (fields : List (String × Part))
  /-- An array of tables that headers add to, the last one first. -/
  | tables (span : Span) (items : List (Located (List (String × Part))))

abbrev Parts := Table String Part

/-- A key with the part of the text that it is written in. -/
abbrev Key := Located String

namespace Parts

/-- The error of a key that cannot be used where it stands. -/
private def misplaced (key : Key) (message : String) : TomlError := ⟨key.span, message⟩

private def duplicate (key : Key) : TomlError := misplaced key "duplicate key"

private def notExtensible (key : Key) : TomlError :=
  misplaced key "cannot extend a value with a dotted key"

/-- Set an item under a dotted key. Tables on the way must not have a header of
their own. -/
def set (item : Located Toml) : List Key → Parts → Except TomlError Parts
  | [], parts => .ok parts
  | [key], parts =>
      if Table.has key.item parts then .error (duplicate key)
      else .ok (Table.insert key.item (.closed item) parts)
  | key :: rest, parts =>
      match Table.find? key.item parts with
      | none => do
          return Table.insert key.item (.table .dotted key.span (← set item rest [])) parts
      | some (.table origin span fields) =>
          if origin = .header then .error (duplicate key)
          else do
            return Table.insert key.item (.table origin span (← set item rest fields)) parts
      | some _ => .error (notExtensible key)

/-- Change the fields of the table that a header path leads to. -/
def changeAt (change : Parts → Except TomlError Parts) : List Key → Parts → Except TomlError Parts
  | [], parts => change parts
  | key :: rest, parts =>
      match Table.find? key.item parts with
      | none => do
          return Table.insert key.item
            (.table .implied key.span (← changeAt change rest [])) parts
      | some (.table origin span fields) => do
          return Table.insert key.item
            (.table origin span (← changeAt change rest fields)) parts
      | some (.tables span (⟨place, fields⟩ :: items)) => do
          return Table.insert key.item
            (.tables span (⟨place, ← changeAt change rest fields⟩ :: items)) parts
      | some _ => .error (notExtensible key)

def openTable (span : Span) (key : Key) (parts : Parts) : Except TomlError Parts :=
  match Table.find? key.item parts with
  | none => .ok (Table.insert key.item (.table .header span []) parts)
  | some (.table .implied _ fields) =>
      .ok (Table.insert key.item (.table .header span fields) parts)
  | some _ => .error (duplicate key)

/-- Add a table to the array of tables of a header. -/
def addTable (span : Span) (key : Key) (parts : Parts) : Except TomlError Parts :=
  match Table.find? key.item parts with
  | none => .ok (Table.insert key.item (.tables span [⟨span, []⟩]) parts)
  | some (.tables first items) =>
      .ok (Table.insert key.item (.tables first (⟨span, []⟩ :: items)) parts)
  | some _ => .error (duplicate key)

mutual

def finishPart : Part → Located Toml
  | .closed item => item
  | .table _ span fields => ⟨span, .table (finish fields)⟩
  | .tables span items => ⟨span, .array (finishTables items).reverse⟩

def finish : List (String × Part) → List (String × Located Toml)
  | [] => []
  | (key, part) :: rest => (key, finishPart part) :: finish rest

def finishTables : List (Located (List (String × Part))) → List (Located Toml)
  | [] => []
  | ⟨span, fields⟩ :: rest => ⟨span, .table (finish fields)⟩ :: finishTables rest

end

end Parts

end Groundplan.Toml
