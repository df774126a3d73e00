import Groundplan.Evaluation
import Groundplan.Resource
import Groundplan.Value.Json
/-!
The records of an evaluation: one for each instance of each resource whose value
is an object.
-/

namespace Groundplan.Evaluation

def attributes (value : Value) : Table String Json :=
  match value.toJson with
  | .object fields => fields
  | _ => []

/-- What is told about the provider of a resource: its configuration if the module
of the resource has one, and the region that the configuration sets. -/
def recordDetails (evaluation : Evaluation) (name : FullName) (details : ResourceDetails) :
    Table String Json :=
  let configuration := evaluation.value? (FullName.providerConfig name.module details.providerName)
  let region := ((configuration.bind Value.asObject?).bind (Table.find? "region")).bind
    Value.asString?
  let entry (key : String) (value : Option Json) : Table String Json :=
    (value.map fun value => (key, value)).toList
  entry "region" (region.map .string) ++
    [("terraform", .object
      (entry "provider_config" (configuration.map Value.toJson) ++
        [("provider_type", .string details.providerType)] ++
        entry "provider_version_constraint" (details.providerVersion.map .string)))]

def recordType (details : ResourceDetails) : String :=
  if details.isData then "data." ++ details.resourceType else details.resourceType

def recordsOf (evaluation : Evaluation) (name : FullName) (details : ResourceDetails) :
    List ResourceRecord :=
  let record (id : String) (value : Value) : ResourceRecord :=
    ⟨id, recordType details, attributes value, evaluation.recordDetails name details⟩
  match evaluation.value? name with
  | some (.list items) =>
      items.zipIdx.map fun item => record (PhantomAttributes.instanceName name item.2) item.1
  | some (.object fields) => [record name.text (.object fields)]
  | _ => []

def records (evaluation : Evaluation) : List ResourceRecord :=
  evaluation.analysis.resources.flatMap fun entry => evaluation.recordsOf entry.1 entry.2

end Groundplan.Evaluation
