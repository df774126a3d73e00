import Groundplan.Evaluation
/-!
Where a part of a resource is declared: the place in its own block, and then the
calls of the modules around it, from the inside out.
-/

namespace Groundplan.Evaluation

private theorem afterBracket_length {c bracket : Char} {rest after : List Char}
    (found : rest.dropWhile (· != ']') = bracket :: after) :
    after.length < (c :: rest).length := by
  have shorter := (List.dropWhile_sublist (· != ']') (l := rest)).length_le
  rw [found] at shorter
  simp only [List.length_cons] at shorter ⊢
  omega

/-- Leave out every bracket together with what stands before the next closing
bracket. -/
def dropIndexes : List Char → List Char
  | [] => []
  | c :: rest =>
      if c = '[' then
        match found : rest.dropWhile (· != ']') with
        | [] => c :: rest
        | _ :: after =>
            have : after.length < (c :: rest).length := afterBracket_length found
            dropIndexes after
      else c :: dropIndexes rest
termination_by text => text.length
decreasing_by
  · assumption
  · simp

/-- The resource that the identifier of a record names. -/
def resourceOfId? (evaluation : Evaluation) (id : String) : Option (FullName × ResourceDetails) :=
  match FullName.read (String.ofList (dropIndexes id.toList)) with
  | .ok name =>
      (Table.find? name evaluation.analysis.resources).map fun details => (name, details)
  | .error _ => none

/-- The names of a module and of the modules around it, without the root. -/
def enclosing (module : ModuleName) : List ModuleName :=
  (List.range module.length).reverse.map fun depth => module.take (depth + 1)

/-- Where the part of a record that an accessor leads to is declared; nothing if
the identifier names no resource. -/
def locate (evaluation : Evaluation) (id : String) (accessor : Accessor) : List SourceRange :=
  match evaluation.resourceOfId? id with
  | none => []
  | some (name, details) =>
      details.block.locate accessor ::
        (enclosing name.module).filterMap fun module =>
          (Table.find? module evaluation.analysis.modules).bind ModuleDetails.location

end Groundplan.Evaluation
