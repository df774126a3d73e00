import Groundplan.Json
/-!
Resource records, the filter over their types, and the formats that a list of
records is written in.
-/

namespace Groundplan

structure ResourceRecord where
  id : String
  resourceType : String
  attributes : Table String Json
  details : Table String Json

/-- The resource types to keep: those that match an included pattern if there
is any, and otherwise those that match no excluded pattern. -/
structure ResourceFilter where
  includes : List String
  excludes : List String

namespace ResourceFilter

/-- A pattern names a type, or all types that start as it does before a star at
its end. -/
def matchesType (pattern resourceType : String) : Bool :=
  match pattern.toList.reverse with
  | '*' :: start => start.reverse.isPrefixOf resourceType.toList
  | _ => pattern == resourceType

def keeps (filter : ResourceFilter) (resourceType : String) : Bool :=
  if filter.includes.isEmpty then
    !filter.excludes.any fun pattern => matchesType pattern resourceType
  else filter.includes.any fun pattern => matchesType pattern resourceType

def apply (filter : ResourceFilter) (records : List ResourceRecord) : List ResourceRecord :=
  records.filter fun record => filter.keeps record.resourceType

example : matchesType "aws_s3_*" "aws_s3_bucket" = true := by decide

end ResourceFilter

inductive Backend where
  /-- One document with every record. -/
  | json
  /-- One line with identifier and type for every record. -/
  | ids
deriving DecidableEq

namespace Backend

/-- Names of formats are read without regard to case. -/
def ofName? (name : String) : Option Backend :=
  match String.ofList (name.toList.map Char.toLower) with
  | "json" => some json
  | "ids" => some ids
  | "id" => some ids
  | _ => none

def name : Backend → String
  | json => "json"
  | ids => "ids"

def fileExtension : Backend → String
  | json => "json"
  | ids => "txt"

def unknownMessage (name : String) : String := "unknown backend '" ++ name ++ "'"

def recordJson (record : ResourceRecord) : Json :=
  .object [("attributes", .object record.attributes), ("id", .string record.id),
    ("meta", .object record.details), ("resource_type", .string record.resourceType)]

def render (backend : Backend) (records : List ResourceRecord) : String :=
  match backend with
  | json =>
      (Json.object [("backend", .string backend.name),
        ("resources", .array (records.map recordJson))]).pretty
  | ids =>
      String.join (records.map fun record =>
        record.id ++ "\t" ++ record.resourceType ++ "\n")

end Backend

end Groundplan
