import Groundplan.Phantom
import Groundplan.Proofs.Tables
/-!
Phantom attributes. A patch follows from the attributes that are recorded for its
resource, and only resources have any.
-/

namespace Groundplan

namespace PhantomAttributes

/-! ## Patches -/

theorem patchInstance_nil (backReference : String) (value : Value) :
    patchInstance [] backReference value = value := by
  simp [patchInstance]

variable {attributes : PhantomAttributes} {resource : FullName}

theorem patch_object (attributes : PhantomAttributes) (resource : FullName)
    (fields : List (String × Value)) :
    attributes.patch resource (.object fields) =
      patchInstance (attributes.of resource) resource.text (.object fields) := by
  unfold patch of
  cases Table.find? resource attributes with
  | none => exact (patchInstance_nil _ _).symm
  | some paths => rfl

theorem patch_list (attributes : PhantomAttributes) (resource : FullName) (items : List Value) :
    attributes.patch resource (.list items) =
      .list (items.zipIdx.map fun item =>
        patchInstance (attributes.of resource) (instanceName resource item.2) item.1) := by
  unfold patch of
  cases Table.find? resource attributes with
  | none => simp [patchInstance_nil]
  | some paths => rfl

theorem patch_eq_of_of_eq {left right : PhantomAttributes}
    (same : left.of resource = right.of resource) (value : Value) :
    left.patch resource value = right.patch resource value := by
  cases value with
  | object fields => rw [patch_object, patch_object, same]
  | list items => rw [patch_list, patch_list, same]
  | _ =>
      unfold patch
      cases Table.find? resource left <;> cases Table.find? resource right <;> rfl

/-! ## Recorded attributes -/

/-- The first key of a resource is one that can name resources. -/
theorem not_mem_nonResourceHeads {name resource : FullName} {trailing : LocalName}
    (isResource : name.asResource? = some (resource, trailing)) {head : String}
    {rest : LocalName} (path : resource.path = head :: rest) :
    head ∉ FullName.nonResourceHeads := by
  rw [FullName.asResource?] at isResource
  split at isResource
  · cases isResource
  · next first others shape =>
      simp only [Option.ite_none_left_eq_some, Bool.or_eq_true, List.contains_iff_mem,
        Option.some.injEq, Prod.mk.injEq, not_or] at isResource
      rcases isResource with ⟨⟨named, _⟩, same, _⟩
      subst same
      have isFirst : first = head := by
        rw [shape] at path
        split at path
        · exact (List.cons.inj path).1
        · exact (List.cons.inj path).1
      exact isFirst ▸ named

section

variable {name : FullName}
  (never : ∀ given trailing, FullName.asResource? given ≠ some (name, trailing))
include never

theorem find?_record (attributes : PhantomAttributes) (module : ModuleName)
    (reference : Reference) :
    Table.find? name (attributes.record module reference) = Table.find? name attributes := by
  rw [record]
  dsimp only
  split
  · rfl
  · split
    · rfl
    · next resource trailing isResource =>
        split
        · rfl
        · exact Table.find?_insert_of_ne (fun same => never _ trailing (same ▸ isResource)) _ _

theorem find?_foldl_record (references : List Reference) (attributes : PhantomAttributes)
    (module : ModuleName) :
    Table.find? name (references.foldl
        (fun attributes reference => record attributes module reference) attributes) =
      Table.find? name attributes := by
  induction references generalizing attributes with
  | nil => rfl
  | cons first rest induction => rw [List.foldl_cons, induction, find?_record never]

theorem find?_ofTerms (terms : NameTable Term) : Table.find? name (ofTerms terms) = none := by
  rw [ofTerms]
  generalize start : ([] : PhantomAttributes) = attributes
  have none : Table.find? name attributes = none := by rw [← start]; rfl
  clear start
  induction terms generalizing attributes with
  | nil => exact none
  | cons first rest induction =>
      rw [List.foldl_cons]
      exact induction _ (by rw [find?_foldl_record never, none])

end

/-- What is no resource has no phantom attributes. -/
theorem of_ofTerms_eq_nil (terms : NameTable Term) {name : FullName} {head : String}
    {rest : LocalName} (path : name.path = head :: rest)
    (other : head ∈ FullName.nonResourceHeads) : (ofTerms terms).of name = [] := by
  have absent := find?_ofTerms (fun _ _ isResource =>
    not_mem_nonResourceHeads isResource path other) terms
  rw [of, absent]
  rfl

end PhantomAttributes

end Groundplan
