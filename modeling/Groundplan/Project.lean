import Groundplan.Resource
import Groundplan.Toml.Reader
/-!
Project files: settings and a list of targets, each of which writes the records
of a module tree in one format. Fields that have no meaning are passed over.
-/

namespace Groundplan

structure ProjectSettings where
  /-- The directory of targets that do not name one. -/
  input : Option String
  /-- Variable files that apply before those of a target. -/
  variableFiles : List String
  environment : Table String String

structure Target where
  name : String
  backend : String
  input : Option String
  /-- The file that is written; without it the records are printed. -/
  output : Option String
  filter : ResourceFilter
  assignments : Table String Toml
  variableFiles : List String

structure Project where
  settings : ProjectSettings
  targets : List Target

namespace Project

def fileName : String := "hclscan.toml"

/-! ## Fields -/

/-- A kind of item that a field asks for. -/
private def describe : Toml → String
  | .string value => "string " ++ Json.quote value
  | .integer value => "integer `" ++ toString value ++ "`"
  | .float value => "floating point `" ++ value.text ⟨false⟩ ++ "`"
  | .bool value => "boolean `" ++ (if value then "true" else "false") ++ "`"
  | .dateTime _ => "map"
  | .array _ => "sequence"
  | .table _ => "map"

private def unexpected (item : Located Toml) (wanted : String) : TomlError :=
  ⟨item.span, "invalid type: " ++ describe item.item ++ ", expected " ++ wanted⟩

private def readText (item : Located Toml) : Except TomlError String :=
  match item.item with
  | .string value => .ok value
  | _ => .error (unexpected item "a string")

private def readArray (item : Located Toml) : Except TomlError (List (Located Toml)) :=
  match item.item with
  | .array items => .ok items
  | _ => .error (unexpected item "a sequence")

private def readTable (wanted : String) (item : Located Toml) :
    Except TomlError (Table String (Located Toml)) :=
  match item.item with
  | .table fields => .ok fields
  | _ => .error (unexpected item wanted)

private def readTexts (item : Located Toml) : Except TomlError (List String) := do
  (← readArray item).mapM readText

private def optional (read : Located Toml → Except TomlError α) (key : String)
    (fields : Table String (Located Toml)) : Except TomlError (Option α) :=
  match Table.find? key fields with
  | some item => (read item).map some
  | none => .ok none

/-- Read a field of a table that is written at `span`. -/
private def required (read : Located Toml → Except TomlError α) (key : String) (span : Span)
    (fields : Table String (Located Toml)) : Except TomlError α :=
  match Table.find? key fields with
  | some item => read item
  | none => .error ⟨span, "missing field `" ++ key ++ "`"⟩

/-- Read a field that is the empty list if it is not there. -/
private def textsOf (key : String) (fields : Table String (Located Toml)) :
    Except TomlError (List String) :=
  (optional readTexts key fields).map fun texts => texts.getD []

/-! ## Projects -/

private def readEnvironment (item : Located Toml) : Except TomlError (Table String String) := do
  (← readTable "a map" item).mapM fun entry => do return (entry.1, ← readText entry.2)

private def noSettings : ProjectSettings := ⟨none, [], []⟩

private def readSettings (item : Located Toml) : Except TomlError ProjectSettings := do
  let fields ← readTable "struct Settings" item
  return {
    environment := (← optional readEnvironment "env" fields).getD []
    input := ← optional readText "input" fields
    variableFiles := ← textsOf "var_files" fields }

private def readAssignments (item : Located Toml) : Except TomlError (Table String Toml) := do
  return (← readTable "a map" item).map fun entry => (entry.1, entry.2.item)

private def readTarget (item : Located Toml) : Except TomlError Target := do
  let fields ← readTable "struct TargetConfig" item
  return {
    filter := ⟨← textsOf "include" fields, ← textsOf "exclude" fields⟩
    input := ← optional readText "input" fields
    output := ← optional readText "output" fields
    variableFiles := ← textsOf "var_files" fields
    assignments := (← optional readAssignments "vars" fields).getD []
    name := ← required readText "name" item.span fields
    backend := ← required readText "backend" item.span fields }

private def readTargets (item : Located Toml) : Except TomlError (List Target) := do
  (← readArray item).mapM readTarget

def read (text : String) : Except TomlError Project := do
  let fields ← Toml.read text
  let settings ← optional readSettings "settings" fields
  let targets ← required readTargets "targets" ⟨0, 0⟩ fields
  return ⟨settings.getD noSettings, targets⟩

def target? (project : Project) (name : String) : Option Target :=
  project.targets.find? fun target => target.name == name

end Project

namespace Target

def values (target : Target) : Except String (Table String Value) :=
  target.assignments.mapM fun entry => do return (entry.1, ← entry.2.toValue)

def directory (settings : ProjectSettings) (target : Target) : String :=
  ((target.input).or settings.input).getD "."

end Target

end Groundplan
