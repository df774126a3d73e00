import Groundplan.Files
import Groundplan.Json.Reader
/-!
The registry of fetched modules: the directory of every module source that an
earlier run has brought onto this file system. The index that such a run leaves
behind is a JSON document below the root directory.
-/

namespace Groundplan

abbrev Registry := Table String String

namespace Registry

/-- The index of fetched modules, as seen from the root directory. -/
def indexPath : String := ".terraform/modules/modules.json"

structure IndexEntry where
  source : String
  directory : String

/-- The only value among `fields` with a key, if the key is not repeated. -/
private def onlyField? (key : String) (fields : List (String × Json)) : Option (Option Json) :=
  match fields.filter fun field => field.1 == key with
  | [] => some none
  | [field] => some (some field.2)
  | _ => none

/-- A text field; an absent one is empty. -/
private def textField? (key : String) (fields : List (String × Json)) : Option String := do
  match ← onlyField? key fields with
  | none => some ""
  | some (.string text) => some text
  | some _ => none

/-- The text at a place of a list that is used instead of an object. -/
private def textItem? : Option Json → Option String
  | none => some ""
  | some (.string text) => some text
  | some _ => none

/-- Read an entry: its key, which has to be a text, its source and its directory. -/
def readEntry? : Json → Option IndexEntry
  | .object fields => do
      let _ ← textField? "Key" fields
      return ⟨← textField? "Source" fields, ← textField? "Dir" fields⟩
  | .array items =>
      if items.length ≤ 3 then do
        let _ ← textItem? items[0]?
        return ⟨← textItem? items[1]?, ← textItem? items[2]?⟩
      else none
  | _ => none

private def readEntries? : Json → Option (List IndexEntry)
  | .array items => items.mapM readEntry?
  | _ => none

def readIndex? (text : String) : Option (List IndexEntry) := do
  match ← Json.readWritten? text with
  | .object fields =>
      match ← onlyField? "Modules" fields with
      | none => some []
      | some entries => readEntries? entries
  | .array [] => some []
  | .array [entries] => readEntries? entries
  | _ => none

/-- Record the directory of a source, in place of an earlier one. -/
def register (registry : Registry) (source directory : String) : Registry :=
  Table.insert source directory registry

def resolve? (registry : Registry) (source : String) : Option String :=
  Table.find? source registry

/-- Record an entry of the index. The first entry of a source stays, and an
entry without a source or directory is passed over. -/
def addEntry (root : String) (registry : Registry) (entry : IndexEntry) : Registry :=
  if entry.source.isEmpty || entry.directory.isEmpty || Table.has entry.source registry then
    registry
  else registry.register entry.source (Path.join root entry.directory)

def ofEntries (root : String) (entries : List IndexEntry) : Registry :=
  entries.foldl (addEntry root) []

/-- The registry of the modules that were fetched for a root directory, and a
warning if the index is there but cannot be read. -/
def load (files : Files) (root : String) : Registry × List String :=
  let path := Path.join root indexPath
  let ignoring (reason : String) : Registry × List String :=
    ([], ["ignoring module index " ++ path ++ ": " ++ reason])
  if files.exists? path then
    match files.read path with
    | .error error => ignoring (error.causes.head?.getD "")
    | .ok text =>
        match readIndex? text with
        | some entries => (ofEntries root entries, [])
        | none => ignoring Json.syntaxReport
  else ([], [])

end Registry

end Groundplan
