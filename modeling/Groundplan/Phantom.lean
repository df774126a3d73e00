import Groundplan.NameTable
import Groundplan.Term
/-!
Phantom attributes: attributes of a resource that others read although its own
configuration does not set them. They are filled with a reference back to the
resource, so that the link can still be followed.
-/

namespace Groundplan

/-- The paths of the attributes that are read from each resource, in order. -/
abbrev PhantomAttributes := NameTable (List LocalName)

namespace PhantomAttributes

/-- The keys right after the indexes at the start of an accessor. -/
private def keysAfterIndexes (accessor : Accessor) : LocalName :=
  ((accessor.dropWhile fun segment => !segment.isKey).takeWhile Segment.isKey).filterMap
    Segment.asKey?

/-- The attribute that a reference reads: what follows the name of the resource,
or else what follows its indexes, or else what follows a step that is not
known. -/
private def attributePath (trailing : LocalName) (rest : Accessor) (relative : LocalName) :
    LocalName :=
  if !trailing.isEmpty then trailing
  else
    let after := keysAfterIndexes rest
    if after.isEmpty then relative else after

/-- Record the attribute that a reference in a module reads from a resource, if
it reads one. -/
def record (attributes : PhantomAttributes) (module : ModuleName) (reference : Reference) :
    PhantomAttributes :=
  let (path, rest) := Accessor.splitKeys reference.accessor
  match FullName.ofAccessor module (Accessor.ofLocal path) with
  | .error _ => attributes
  | .ok name =>
      match name.asResource? with
      | none => attributes
      | some (resource, trailing) =>
          let read := attributePath trailing rest reference.relative
          if read.isEmpty then attributes
          else
            Table.alter resource (fun earlier => Table.insertKey read (earlier.getD []))
              attributes

def ofTerms (terms : NameTable Term) : PhantomAttributes :=
  terms.foldl
    (fun attributes entry =>
      entry.2.dependencies.foldl
        (fun attributes reference => record attributes entry.1.module reference) attributes)
    []

def of (attributes : PhantomAttributes) (resource : FullName) : List LocalName :=
  (Table.find? resource attributes).getD []

/-- Fill the attributes that an instance does not have. -/
def patchInstance (paths : List LocalName) (backReference : String) (value : Value) : Value :=
  if value.isObject then
    paths.foldl (fun value path => (Value.nest path (.string backReference)).merge value) value
  else value

def instanceName (resource : FullName) (position : Nat) : String :=
  resource.text ++ "[" ++ toString position ++ "]"

/-- Fill the recorded attributes of a resource, or of each of its instances. -/
def patch (attributes : PhantomAttributes) (resource : FullName) (value : Value) : Value :=
  match Table.find? resource attributes, value with
  | none, value => value
  | some paths, .object fields => patchInstance paths resource.text (.object fields)
  | some paths, .list items =>
      .list (items.zipIdx.map fun item =>
        patchInstance paths (instanceName resource item.2) item.1)
  | some _, other => other

end PhantomAttributes

end Groundplan
