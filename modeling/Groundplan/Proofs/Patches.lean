import Groundplan.Proofs.Agreement
import Groundplan.Proofs.Phantoms
import Groundplan.Proofs.Splices
/-!
What a patch does to the values of a resource. It splices the recorded attributes into every
instance, so it is conservative: nothing that is configured gets lost and nothing is added but
recorded attributes. It is complete but for attributes below others: where a shorter recorded
attribute is filled first, it stands in the way of a longer one.
-/

namespace Groundplan.PhantomAttributes

open Value (Canonical Hinders Outlasts)

/-! ## Recorded attributes -/

/-- The attributes that references read, each from its own module. -/
def ofReferences (references : List (ModuleName × Reference)) : PhantomAttributes :=
  references.foldl (fun attributes entry => attributes.record entry.1 entry.2) []

theorem ofTerms_eq_ofReferences (terms : NameTable Term) :
    ofTerms terms = ofReferences (terms.flatMap fun entry =>
      entry.2.dependencies.map fun reference => (entry.1.module, reference)) := by
  rw [ofTerms, ofReferences, List.foldl_flatMap]
  simp only [List.foldl_map]

theorem ascending_record {attributes : PhantomAttributes}
    (ascending : ∀ resource, Table.Ascending (attributes.of resource)) (module : ModuleName)
    (reference : Reference) (resource : FullName) :
    Table.Ascending ((attributes.record module reference).of resource) := by
  rw [record]
  dsimp only
  split
  · exact ascending resource
  · split
    · exact ascending resource
    · next read trailing _ =>
        split
        · exact ascending resource
        · rw [of, Table.alter, Table.find?_insert]
          split
          · exact Table.ascending_insertKey _ (ascending read)
          · exact ascending resource

theorem ascending_foldl_record {attributes : PhantomAttributes}
    (ascending : ∀ resource, Table.Ascending (attributes.of resource))
    (references : List (ModuleName × Reference)) (resource : FullName) :
    Table.Ascending ((references.foldl
      (fun attributes entry => attributes.record entry.1 entry.2) attributes).of resource) := by
  induction references generalizing attributes with
  | nil => exact ascending resource
  | cons first rest induction => exact induction (ascending_record ascending first.1 first.2)

theorem ascending_ofReferences (references : List (ModuleName × Reference))
    (resource : FullName) : Table.Ascending ((ofReferences references).of resource) := by
  have start : ∀ name, Table.Ascending (of [] name) := fun _ => List.Pairwise.nil
  exact ascending_foldl_record start references resource

/-! ## Patches as splices -/

theorem patchInstance_eq_spliceAll (paths : List LocalName) (text : String) (value : Value) :
    patchInstance paths text value = value.spliceAll text paths := by
  rw [patchInstance]
  split
  · rfl
  · next noObject => rw [Value.spliceAll_of_plain (by simpa using noObject)]

theorem patch_of_isObject (attributes : PhantomAttributes) (resource : FullName) {value : Value}
    (isObject : value.isObject = true) :
    attributes.patch resource value = value.spliceAll resource.text (attributes.of resource) := by
  cases value with
  | object fields => rw [patch_object, patchInstance_eq_spliceAll]
  | _ => cases isObject

theorem patch_of_list (attributes : PhantomAttributes) (resource : FullName) (items : List Value) :
    attributes.patch resource (.list items) =
      .list (items.mapIdx fun position item =>
        item.spliceAll (instanceName resource position) (attributes.of resource)) := by
  simp only [patch_list, patchInstance_eq_spliceAll, List.mapIdx_eq_zipIdx_map]

/-! ## Conservation -/

/-- What a patch keeps and what it adds, at every path of an instance. -/
structure Conserves (paths : List LocalName) (text : String) (before after : Value) : Prop where
  /-- Objects stay objects, and everything else stays what it was. -/
  kept : ∀ path part, before.at? path = some part →
    ∃ later, after.at? path = some later ∧ Outlasts part later
  /-- Nothing is added but at the recorded paths and on the way to them. -/
  added : ∀ path part, before.at? path = none → after.at? path = some part →
    ∃ recorded ∈ paths, path <+: recorded
  /-- What has no fields is added at recorded paths alone, and is the text. -/
  leaf : ∀ path part, before.at? path = none → after.at? path = some part →
    part.fields = [] → path ∈ paths ∧ part = .string text
  /-- A recorded path has nothing at its end only if something plain stands on the way. -/
  filled : ∀ path ∈ paths, after.at? path = none → ∃ front, after.Obstructs path front

theorem conserves_spliceAll (paths : List LocalName) (text : String) {value : Value}
    (canonical : value.Canonical) : Conserves paths text value (value.spliceAll text paths) where
  kept _ _ found := Value.outlasts_spliceAll text canonical paths found
  added path part nothing found := by
    cases Value.spliced_spliceAll canonical nothing found with
    | leaf member => exact ⟨path, member, List.prefix_refl path⟩
    | inner member _ => exact ⟨_, member, List.prefix_append path _⟩
  leaf path part nothing found empty := by
    cases Value.spliced_spliceAll canonical nothing found with
    | leaf member => exact ⟨member, rfl⟩
    | inner _ atKey =>
        rw [empty] at atKey
        cases atKey
  filled _ member nothing := (Value.taken_spliceAll canonical member).exists_obstructs nothing

/-- What a patch makes of the value of a resource: of an instance, of instances in a list, or of
a value that is neither. -/
structure PatchedTo (attributes : PhantomAttributes) (resource : FullName)
    (before after : Value) : Prop where
  single : before.isObject = true →
    Conserves (attributes.of resource) resource.text before after
  replicated : ∀ items, before = .list items → ∃ patched, after = .list patched ∧
    patched.length = items.length ∧
    ∀ (position : Nat) (item later : Value), items[position]? = some item →
      patched[position]? = some later →
      (item.isObject = false → later = item) ∧
      (item.isObject = true →
        Conserves (attributes.of resource) (instanceName resource position) item later)
  other : before.isObject = false → (∀ items, before ≠ .list items) → after = before

theorem patch_of_other (attributes : PhantomAttributes) (resource : FullName) {value : Value}
    (noObject : value.isObject = false) (noList : ∀ items, value ≠ .list items) :
    attributes.patch resource value = value := by
  unfold patch
  cases Table.find? resource attributes with
  | none => rfl
  | some paths =>
      cases value with
      | object => cases noObject
      | list items => exact absurd rfl (noList items)
      | _ => rfl

theorem patch_patch (attributes : PhantomAttributes) (resource : FullName) {value : Value}
    (canonical : value.Canonical) :
    attributes.patch resource (attributes.patch resource value) =
      attributes.patch resource value := by
  cases isObject : value.isObject with
  | true =>
      have still : (value.spliceAll resource.text (attributes.of resource)).isObject = true := by
        rw [Value.isObject_spliceAll, isObject]
      rw [patch_of_isObject attributes resource isObject,
        patch_of_isObject attributes resource still, Value.spliceAll_spliceAll canonical]
  | false =>
      cases value with
      | object => cases isObject
      | list items =>
          rw [patch_of_list, patch_of_list, List.mapIdx_mapIdx]
          congr 1
          apply List.mapIdx_eq_mapIdx_iff.mpr
          intro position inRange
          have inItem : items[position].Canonical :=
            Value.canonical_list.mp canonical _ (List.getElem_mem inRange)
          exact Value.spliceAll_spliceAll inItem _
      | _ =>
          have same := patch_of_other attributes resource isObject nofun
          rw [same, same]

/-- A patch is conservative: it keeps what is configured, adds what is recorded and nothing else,
and has nothing left to do when it is made again. -/
theorem patch_conservative (attributes : PhantomAttributes) (resource : FullName) {value : Value}
    (canonical : value.Canonical) :
    PatchedTo attributes resource value (attributes.patch resource value) ∧
      attributes.patch resource (attributes.patch resource value) =
        attributes.patch resource value := by
  refine ⟨?_, patch_patch attributes resource canonical⟩
  constructor
  case single =>
    intro isObject
    rw [patch_of_isObject attributes resource isObject]
    exact conserves_spliceAll _ _ canonical
  case replicated =>
    rintro items rfl
    refine ⟨_, patch_of_list attributes resource items, List.length_mapIdx, ?_⟩
    intro position item later listed patched
    rw [List.getElem?_mapIdx, listed, Option.map_some, Option.some.injEq] at patched
    subst patched
    have inItem : item.Canonical :=
      Value.canonical_list.mp canonical item (List.mem_of_getElem? listed)
    exact ⟨fun noObject => Value.spliceAll_of_plain noObject _,
      fun _ => conserves_spliceAll _ _ inItem⟩
  case other =>
    intro noObject noList
    exact patch_of_other attributes resource noObject noList

/-- A resource of which an attribute is read, and another one below it. -/
def bucket : FullName := ⟨[], ["t", "b"]⟩

def bucketReferences : List (ModuleName × Reference) :=
  [([], ⟨[.key "t", .key "b", .key "a"], []⟩),
    ([], ⟨[.key "t", .key "b", .key "a", .key "c"], []⟩)]

/-- Instances that configure nothing, an object at the first attribute, and nothing known. -/
def buckets : List Value :=
  [.object [], .object [("a", .object []), ("d", .null)], .unknown]

def patchedBuckets : List Value :=
  [.object [("a", .string "t.b[0]")],
    .object [("a", .object [("c", .string "t.b[1]")]), ("d", .null)], .unknown]

theorem of_bucketReferences : (ofReferences bucketReferences).of bucket = [["a"], ["a", "c"]] := by
  decide

theorem canonical_buckets : (Value.list buckets).Canonical := by
  have ascending : compare "a" "d" = .lt := by decide
  simp [buckets, Canonical, Value.CanonicalItems, Value.CanonicalFields, Table.Ordered, ascending]

theorem patch_buckets :
    (ofReferences bucketReferences).patch bucket (.list buckets) = .list patchedBuckets := by
  have first : instanceName bucket 0 = "t.b[0]" := by decide
  have second : instanceName bucket 1 = "t.b[1]" := by decide
  have descending : compare "d" "a" = .gt := by decide
  rw [patch_of_list, of_bucketReferences]
  simp [buckets, patchedBuckets, Value.spliceAll, Value.splice, Value.nest, Value.merge,
    Value.mergeFields, Table.insert, Table.find?, first, second, descending]

theorem patch_conservative_buckets : (Value.list buckets).Canonical ∧
    PatchedTo (ofReferences bucketReferences) bucket (.list buckets) (.list patchedBuckets) ∧
    (ofReferences bucketReferences).patch bucket (.list patchedBuckets) =
      .list patchedBuckets := by
  refine ⟨canonical_buckets, ?_⟩
  rw [← patch_buckets]
  exact patch_conservative (ofReferences bucketReferences) bucket canonical_buckets

/-! ## Patches as they are read -/

/-- The recorded attributes that can be told along a path: those that start with its first key,
and all of them where the path ends at the resource. -/
def seen (attributes : PhantomAttributes) (resource : FullName) : LocalName → List LocalName
  | [] => attributes.of resource
  | key :: _ => (attributes.of resource).filter fun path => path.head? = some key

theorem seen_eq_nil {attributes : PhantomAttributes} {resource : FullName}
    (none : attributes.of resource = []) (path : LocalName) :
    attributes.seen resource path = [] := by
  cases path <;> rw [seen, none]
  rfl

/-- Two patches of a value are the same along a path if the attributes are that can be told
there. -/
theorem sameAlong_patch {left right : PhantomAttributes} {resource : FullName} {value : Value}
    (ordered : value.isObject = true → value.IsTable) {path : LocalName}
    (same : left.seen resource path = right.seen resource path) :
    Value.SameAlong path (left.patch resource value) (right.patch resource value) := by
  cases path with
  | nil => exact .agree (patch_eq_of_of_eq same value ▸ .same)
  | cons key rest =>
      cases isObject : value.isObject with
      | true =>
          have isTable := ordered isObject
          rw [patch_of_isObject left resource isObject, patch_of_isObject right resource isObject]
          refine .agree (.of_find? ?_ ?_ ?_)
          · rw [Value.isObject_spliceAll, isObject]
          · rw [Value.isObject_spliceAll, isObject]
          · rw [seen, seen] at same
            rw [Value.find?_fields_spliceAll resource.text isTable isTable rfl, same,
              ← Value.find?_fields_spliceAll resource.text isTable isTable rfl]
      | false =>
          cases value with
          | object => cases isObject
          | list items =>
              -- A list has no fields, so a path leads to nothing in either.
              rw [patch_of_list, patch_of_list]
              exact .nothing (.absent rfl rfl) (.absent rfl rfl)
          | _ =>
              rw [patch_of_other left resource isObject nofun,
                patch_of_other right resource isObject nofun]
              exact .agree .same

/-! ## Completeness -/

/-- A recorded attribute is there after the patch exactly if nothing on the way to it hinders it:
neither a plain value of the configuration nor another recorded attribute that is not configured.
It is the reference back to the resource, or what is configured. -/
theorem attribute_filled_iff (references : List (ModuleName × Reference)) (resource : FullName)
    {value : Value} (canonical : value.Canonical) (isObject : value.isObject = true)
    {path : LocalName} (recorded : path ∈ (ofReferences references).of resource) :
    (((ofReferences references).patch resource value).at? path ≠ none ↔
      ∀ front, front <+: path → front ≠ path →
        ¬Hinders ((ofReferences references).of resource) value front) ∧
    ∀ part, ((ofReferences references).patch resource value).at? path = some part →
      (value.at? path = none → part = .string resource.text) ∧
      ∀ configured, value.at? path = some configured → Outlasts configured part := by
  have ascending := ascending_ofReferences references resource
  rw [patch_of_isObject _ resource isObject]
  refine ⟨?_, fun part found => ⟨fun nothing => ?_, fun configured earlier => ?_⟩⟩
  · rw [Ne, Value.at?_spliceAll_eq_none_iff resource.text canonical ascending recorded]
    simp only [not_exists, not_and]
  · rcases Value.spliceAll_cases resource.text canonical ascending recorded nothing with
      stands | ⟨front, obstructs⟩
    · rw [found, Option.some.injEq] at stands
      exact stands
    · rw [obstructs.at?_eq_none] at found
      cases found
  · rcases Value.outlasts_spliceAll resource.text canonical _ earlier with
      ⟨later, stands, outlasts⟩
    rw [found, Option.some.injEq] at stands
    rw [stands]
    exact outlasts

theorem attribute_filled_iff_bucket :
    (Value.object [("a", .object [])]).Canonical ∧
    (Value.object [("a", .object [])]).isObject = true ∧
    ["a", "c"] ∈ (ofReferences bucketReferences).of bucket ∧
    ((ofReferences bucketReferences).patch bucket (.object [("a", .object [])])).at? ["a", "c"] =
      some (.string bucket.text) := by
  have canonical : (Value.object [("a", .object [])]).Canonical := by
    simp [Canonical, Value.CanonicalFields, Table.Ordered]
  have recorded : ["a", "c"] ∈ (ofReferences bucketReferences).of bucket := by
    rw [of_bucketReferences]
    decide
  rcases attribute_filled_iff bucketReferences bucket canonical rfl recorded with
    ⟨present, content⟩
  have isStart {front : List String} (starts : front <+: ["a", "c"])
      (proper : front ≠ ["a", "c"]) : front = [] ∨ front = ["a"] := by
    rcases List.prefix_cons_iff.mp starts with rfl | ⟨rest, rfl, inRest⟩
    · exact .inl rfl
    · rcases List.prefix_cons_iff.mp inRest with rfl | ⟨others, rfl, inOthers⟩
      · exact .inr rfl
      · rw [List.prefix_nil.mp inOthers] at proper
        exact absurd rfl proper
  have filled := present.mpr fun front starts proper hinders => by
    rcases isStart starts proper with rfl | rfl <;> cases hinders with
    | plain found noObject =>
        cases found
        cases noObject
    | vacant _ nothing => cases nothing
  rcases Option.ne_none_iff_exists'.mp filled with ⟨part, found⟩
  refine ⟨canonical, rfl, recorded, ?_⟩
  rw [found, (content part found).1 rfl]

/-- The shorter of two attributes is filled and the longer one is missing, although nothing is
configured that stands in its way. -/
theorem missing_attribute_bucket :
    (Value.object []).Canonical ∧ ["a", "c"] ∈ (ofReferences bucketReferences).of bucket ∧
    (∀ front part, (Value.object []).at? front = some part → part.isObject = true) ∧
    (ofReferences bucketReferences).patch bucket (.object []) = .object [("a", .string "t.b")] ∧
    ((ofReferences bucketReferences).patch bucket (.object [])).at? ["a", "c"] = none := by
  have patched : (ofReferences bucketReferences).patch bucket (.object []) =
      .object [("a", .string "t.b")] := by
    have text : bucket.text = "t.b" := by decide
    rw [patch_of_isObject _ _ rfl, of_bucketReferences]
    simp [Value.spliceAll, Value.splice, Value.nest, Value.merge, Value.mergeFields,
      Table.insert, Table.find?, text]
  refine ⟨?_, ?_, ?_, patched, ?_⟩
  · simp [Canonical, Value.CanonicalFields, Table.Ordered]
  · rw [of_bucketReferences]
    decide
  · intro front part found
    cases front with
    | nil =>
        cases found
        rfl
    | cons => cases found
  · rw [patched]
    rfl

end Groundplan.PhantomAttributes
