import Groundplan.Body.Reader
import Groundplan.Expression.Outcome
import Groundplan.Files
import Groundplan.Json.Reader
import Groundplan.Value.Json
/-!
Variable files: values for the variables of the root module, as settings or as
a JSON object. Some of them apply by their name alone.
-/

namespace Groundplan

/-- Why a variable file gives no values. -/
inductive VariableFileError where
  | unreadable (error : FileError)
  | malformedJson
  | notObject
  | malformedBody
  | hasBlocks
  | badValue (key : String) (diagnostic : Diagnostic)
deriving DecidableEq

def VariableFileError.message : VariableFileError → String
  | unreadable error => error.message
  | malformedJson => Json.syntaxReport
  | notObject => "expected a JSON object at the top level"
  | malformedBody => Body.syntaxReport
  | hasBlocks => "blocks are not allowed in variable files"
  | badValue key diagnostic => "evaluating '" ++ key ++ "': " ++ diagnostic

namespace VariableFile

/-- The names of files that apply wherever they are, in order. -/
def fixedNames : List String := ["terraform.tfvars", "terraform.tfvars.json"]

/-- The endings of the names of further files that apply, in order. -/
def automaticEndings : List String := [".auto.tfvars", ".auto.tfvars.json"]

def hasEnding (ending name : String) : Bool := ending.toList.isSuffixOf name.toList

/-- The files that apply among the sorted names of a directory, in the order in
which they do. -/
def applicable (names : List String) : List String :=
  fixedNames.filter names.contains ++
    automaticEndings.flatMap fun ending => names.filter (hasEnding ending)

def find (files : Files) (directory : String) : Except FileError (List String) := do
  return (applicable (← files.list directory)).map (Path.join directory)

def ofDocument (text : String) : Except VariableFileError (Table String Value) :=
  match Json.read? text with
  | none => .error .malformedJson
  | some document =>
      match Value.ofJson document with
      | .object fields => .ok fields
      | _ => .error .notObject

/-- The value of a setting, which may not read any variable. -/
def settingValue (setting : Setting) : Except VariableFileError (String × Value) :=
  match setting.value.literalValue with
  | .ok value => .ok (setting.key, value)
  | .error diagnostic => .error (.badValue setting.key diagnostic)

def ofBody (text : String) : Except VariableFileError (Table String Value) :=
  match Body.read? text with
  | none => .error .malformedBody
  | some ⟨settings, []⟩ => do return Table.ofList (← settings.mapM settingValue)
  | some _ => .error .hasBlocks

/-- The values of a file, which is a JSON document if the extension of its name
says so. -/
def load (files : Files) (path : String) : Except VariableFileError (Table String Value) :=
  match files.read path with
  | .error error => .error (.unreadable error)
  | .ok text => if Path.extension? path == some "json" then ofDocument text else ofBody text

example : applicable ["b.auto.tfvars", "main.tf", "terraform.tfvars"] =
    ["terraform.tfvars", "b.auto.tfvars"] := by decide

end VariableFile

end Groundplan
