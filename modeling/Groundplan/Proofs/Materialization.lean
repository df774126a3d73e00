import Groundplan.Evaluation.Records
import Groundplan.Proofs.Growth
import Groundplan.Proofs.Instances
import Groundplan.Proofs.Loading
/-!
Records of an evaluation. Every instance of every resource has one record of its own, and
a reference that a patch fills into an instance is the identifier of that record.
-/

namespace Groundplan

/-- Whether a record stands for an instance: it has the attributes of its value, and its
identifier is all that is filled in where the value is patched. -/
structure ResourceRecord.StandsFor (record : ResourceRecord) (value patched : Value) : Prop where
  attributes : .object record.attributes = value.toJson
  references : ∀ path leaf, patched.Leaf path leaf →
    value.Leaf path leaf ∨ leaf = .string record.id

namespace Evaluation

open PhantomAttributes (instanceName)

/-- What the records of a resource are: one for each item of the value of a replicated
resource, in order, and a single one for any other resource. -/
inductive Materializes (evaluation : Evaluation) (name : FullName)
    (records : List ResourceRecord) : (replicated : Bool) → Prop where
  | instances {items patched : List Value}
      (evaluated : evaluation.value? name = some (.list items))
      (filled : evaluation.patched name = .list patched)
      (lengths : records.length = items.length ∧ patched.length = items.length)
      (each : ∀ position record, records[position]? = some record →
        record.id = instanceName name position ∧
          ∃ item filled, items[position]? = some item ∧ patched[position]? = some filled ∧
            record.StandsFor item filled) :
      Materializes evaluation name records true
  | single {value : Value} {record : ResourceRecord}
      (evaluated : evaluation.value? name = some value) (only : records = [record])
      (named : record.id = name.text)
      (standsFor : record.StandsFor value (evaluation.patched name)) :
      Materializes evaluation name records false

theorem attributes_eq {value : Value} (isObject : value.isObject = true) :
    .object (attributes value) = value.toJson := by
  cases value with
  | object fields => rw [attributes, Value.toJson]
  | _ => cases isObject

variable {evaluation : Evaluation} {name : FullName} {details : ResourceDetails}

theorem materializes_list {items : List Value}
    (evaluated : evaluation.value? name = some (.list items))
    (objects : ∀ item ∈ items, item.isObject = true) :
    evaluation.Materializes name (evaluation.recordsOf name details) true := by
  have patched : evaluation.patched name = .list (items.zipIdx.map fun item =>
      PhantomAttributes.patchInstance
        ((PhantomAttributes.ofTerms evaluation.analysis.terms).of name)
        (instanceName name item.2) item.1) := by
    rw [Evaluation.patched, evaluated, Option.getD_some, PhantomAttributes.patch_list]
  refine .instances evaluated patched ⟨by simp [recordsOf, evaluated], by simp⟩ ?_
  intro position record found
  simp only [recordsOf, evaluated, List.getElem?_map, List.getElem?_zipIdx, Option.map_map,
    Option.map_eq_some_iff] at found
  rcases found with ⟨item, atPosition, rfl⟩
  refine ⟨by simp, item, _, atPosition,
    by rw [List.getElem?_map, List.getElem?_zipIdx, atPosition]; rfl,
    attributes_eq (objects item (List.mem_of_getElem? atPosition)), ?_⟩
  intro path leaf stands
  exact (PhantomAttributes.leaf_patchInstance stands).imp id And.right

theorem materializes_object {value : Value} (evaluated : evaluation.value? name = some value)
    (isObject : value.isObject = true) :
    evaluation.Materializes name (evaluation.recordsOf name details) false := by
  cases value with
  | object fields =>
      refine .single evaluated (by rw [recordsOf, evaluated]) rfl
        ⟨attributes_eq (show (Value.object fields).isObject = true from rfl), ?_⟩
      intro path leaf stands
      rw [Evaluation.patched, evaluated, Option.getD_some, PhantomAttributes.patch_object] at stands
      exact (PhantomAttributes.leaf_patchInstance stands).imp id And.right
  | _ => cases isObject

/-- The records of a block follow from whether it has a count or a collection. -/
theorem materializes_of_isBlock {evaluator : Evaluator} {scope : Value} {term : Term}
    (isBlock : term.IsBlock)
    (evaluated : evaluation.value? name = some (term.evaluate evaluator scope).value) :
    evaluation.Materializes name (evaluation.recordsOf name details)
      (term.count.isSome || term.forEach.isSome) := by
  cases replicated : term.count.isSome || term.forEach.isSome with
  | true =>
      rcases isBlock.exists_items_evaluate replicated with ⟨items, list, objects⟩
      exact materializes_list (evaluated.trans (congrArg some list)) objects
  | false => exact materializes_object evaluated (isBlock.isObject_evaluate replicated)

/-! ## Identifiers -/

/-- The identifiers that the records of a resource can have. -/
def Owns (name : FullName) (id : String) : Prop :=
  id = name.text ∨ ∃ position, id = instanceName name position

theorem owns_of_mem_recordsOf {record : ResourceRecord}
    (member : record ∈ evaluation.recordsOf name details) : Owns name record.id := by
  rw [recordsOf] at member
  split at member
  · rcases List.mem_map.mp member with ⟨item, _, rfl⟩
    exact .inr ⟨item.2, rfl⟩
  · rw [List.mem_singleton.mp member]
    exact .inl rfl
  · cases member

theorem Owns.unique {left right : FullName} {id : String} (inLeft : left.WellFormed)
    (inRight : right.WellFormed) (byLeft : Owns left id) (byRight : Owns right id) :
    left = right := by
  rcases byLeft with rfl | ⟨first, rfl⟩ <;> rcases byRight with same | ⟨second, same⟩
  · exact FullName.eq_of_text inLeft inRight same
  · exact absurd same.symm (PhantomAttributes.instanceName_ne_text inLeft second)
  · exact absurd same (PhantomAttributes.instanceName_ne_text inRight first)
  · exact (PhantomAttributes.instanceName_inj inLeft inRight same).1

theorem nodup_recordsOf (wellFormed : name.WellFormed) :
    ((evaluation.recordsOf name details).map ResourceRecord.id).Nodup := by
  rw [recordsOf]
  split
  · next items _ =>
      have positions : items.zipIdx.Pairwise fun left right => left.2 ≠ right.2 := by
        apply List.pairwise_map.mp
        rw [List.zipIdx_map_snd]
        exact List.nodup_range'
      rw [List.map_map]
      refine List.pairwise_map.mpr (positions.imp fun different same => ?_)
      exact different (PhantomAttributes.instanceName_inj wellFormed wellFormed same).2
  · exact List.pairwise_singleton _ _
  · exact List.Pairwise.nil

theorem nodup_records {entries : NameTable ResourceDetails} (ordered : Table.Ordered entries)
    (wellFormed : ∀ name ∈ Table.keys entries, name.WellFormed) :
    ((entries.flatMap fun entry => evaluation.recordsOf entry.1 entry.2).map
      ResourceRecord.id).Nodup := by
  rw [List.map_flatMap, List.Nodup, List.pairwise_flatMap]
  refine ⟨fun entry member => nodup_recordsOf (wellFormed _ (List.mem_map_of_mem member)), ?_⟩
  refine (List.pairwise_map.mp ordered.nodup_keys).imp_of_mem ?_
  intro left right inLeft inRight different id byLeft other byRight same
  rcases List.mem_map.mp byLeft with ⟨first, listed, rfl⟩
  rcases List.mem_map.mp byRight with ⟨second, alsoListed, rfl⟩
  exact different (Owns.unique (wellFormed _ (List.mem_map_of_mem inLeft))
    (wellFormed _ (List.mem_map_of_mem inRight)) (owns_of_mem_recordsOf listed)
    (same ▸ owns_of_mem_recordsOf alsoListed))

end Evaluation

namespace Analysis

variable {files : Files} {registry : Registry} {directory : String} {paths : List String}
  {inputs : VariableInputs} {tree : ModuleTree} {evaluator : Evaluator} {evaluation : Evaluation}
  {name : FullName}

theorem mem_keys_resources : name ∈ Table.keys (ofTree tree).resources ↔
    ∃ module resource, tree.at? name.module = some module ∧
      resource ∈ module.content.resources ∧ resource.path = name.path := by
  rw [Table.mem_keys_iff_find?, find?_resources]
  constructor
  · rintro ⟨details, found⟩
    rcases Option.bind_eq_some_iff.mp found with ⟨module, placed, found⟩
    rcases Option.map_eq_some_iff.mp found with ⟨resource, found, _⟩
    rcases ModuleContent.of_find?_resourceTable found with ⟨member, same⟩
    exact ⟨module, resource, placed, member, (congrArg FullName.path same).symm⟩
  · rintro ⟨module, resource, placed, member, same⟩
    rcases ModuleContent.exists_find?_resourceTable name.module member with ⟨counted, found⟩
    rw [same] at found
    exact ⟨_, by rw [placed, Option.bind_some, found, Option.map_some]⟩

/-- The resource that counts under a name, with its details and its term. -/
theorem exists_resource {details : ResourceDetails}
    (unlike : ∀ entry ∈ (ofTree tree).resources, entry.2.isData = false →
      entry.2.resourceType ∉ ModuleTree.termKinds)
    (member : (name, details) ∈ (ofTree tree).resources) :
    ∃ module resource, tree.at? name.module = some module ∧
      resource ∈ module.content.resources ∧ resource.path = name.path ∧
      details = module.content.details resource ∧
      Table.find? name (ofTree tree).terms = some resource.term := by
  have ordered : Table.Ordered (ofTree tree).resources := Table.ordered_ofList _
  have found := ordered.find?_eq_some_iff.mpr member
  rw [find?_resources] at found
  rcases Option.bind_eq_some_iff.mp found with ⟨module, placed, found⟩
  rcases Option.map_eq_some_iff.mp found with ⟨resource, counted, rfl⟩
  rcases ModuleContent.of_find?_resourceTable counted with ⟨declared, same⟩
  rw [same] at counted
  have own := ModuleTree.find?_ownTerms_of_resource module counted (unlike _ member)
  rw [← same] at own
  refine ⟨module, resource, placed, declared, (congrArg FullName.path same).symm, rfl, ?_⟩
  rw [find?_terms, placed, Option.bind_some, own]

section Evaluated

variable (readsBack : (ofTree tree).ReadsBack)
  (evaluated : Evaluation.ofAnalysis evaluator (ofTree tree) = .ok evaluation)
include readsBack evaluated

/-- Every term has the value that it was evaluated to at its turn. -/
theorem exists_value? {term : Term} (found : Table.find? name (ofTree tree).terms = some term) :
    ∃ scope, evaluation.value? name = some (term.evaluate evaluator scope).value := by
  rcases Evaluation.eq_of_ofAnalysis evaluated with ⟨scheduled, _, state⟩
  have named : name ∈ (ofTree tree).names := Table.mem_keys_iff_find?.mpr ⟨term, found⟩
  have inOrder := (mem_order_iff scheduled named).mpr (readsBack name named)
  rcases List.append_of_mem inOrder with ⟨before, after, split⟩
  have recorded := find?_values_of_split evaluator (readsBack.readsAlone name)
    (fun _ other same => readsBack.eq_of_text other named same) scheduled split found
  exact ⟨_, by rw [Evaluation.value?, state, recorded]⟩

/-- Every instance of every declared resource has exactly one record, replicated resources
have theirs in order, no two records have one identifier, and the references that patches
fill in are identifiers of the records of their own instances. -/
theorem records_match_instances
    (loaded : ModuleTree.loadFiles files registry directory paths inputs = .ok tree)
    (unlike : ∀ entry ∈ (ofTree tree).resources, entry.2.isData = false →
      entry.2.resourceType ∉ ModuleTree.termKinds) :
    (∀ name, name ∈ Table.keys evaluation.analysis.resources ↔
      ∃ module resource, tree.at? name.module = some module ∧
        resource ∈ module.content.resources ∧ resource.path = name.path) ∧
    evaluation.records = (evaluation.analysis.resources.flatMap fun entry =>
      evaluation.recordsOf entry.1 entry.2) ∧
    (∀ name details, (name, details) ∈ evaluation.analysis.resources →
      ∃ module resource, tree.at? name.module = some module ∧
        resource ∈ module.content.resources ∧ resource.path = name.path ∧
        details = module.content.details resource ∧
        Table.find? name evaluation.analysis.terms = some resource.term ∧
        evaluation.Materializes name (evaluation.recordsOf name details)
          (resource.term.count.isSome || resource.term.forEach.isSome)) ∧
    (evaluation.records.map ResourceRecord.id).Nodup := by
  have analysis := (Evaluation.eq_of_ofAnalysis evaluated).2.1
  rw [analysis]
  refine ⟨fun name => mem_keys_resources, by rw [Evaluation.records, analysis], ?_, ?_⟩
  · intro name details member
    rcases exists_resource unlike member with
      ⟨module, resource, placed, declared, path, same, found⟩
    refine ⟨module, resource, placed, declared, path, same, found, ?_⟩
    rcases exists_value? readsBack evaluated found with ⟨scope, value⟩
    rcases ModuleTree.exists_read_of_at? loaded placed with ⟨_, done⟩
    rcases ModuleContent.isDeclared_of_read done resource declared with ⟨_, _, _, body, _, rfl⟩
    exact Evaluation.materializes_of_isBlock (Term.isBlock_ofBody body) value
  · rw [Evaluation.records, analysis]
    refine Evaluation.nodup_records (Table.ordered_ofList _) fun name member => ?_
    rcases Table.exists_find?_of_mem_keys member with ⟨details, found⟩
    rcases exists_resource unlike (Table.mem_of_find? found) with ⟨_, resource, _, _, _, _, term⟩
    have named : name ∈ (ofTree tree).names := Table.mem_keys_iff_find?.mpr ⟨_, term⟩
    exact FullName.wellFormed_of_read (readsBack name named)

end Evaluated

/-- The two instances of a resource with a count have a record each. -/
theorem records_match_instances_traced : ∃ paths tree evaluation details,
    ModuleTree.loadFiles (Files.ofList [("/r/main.tf", tracedText)]) [] "/r" paths .empty =
      .ok tree ∧ (ofTree tree).ReadsBack ∧
    (∀ entry ∈ (ofTree tree).resources, entry.2.isData = false →
      entry.2.resourceType ∉ ModuleTree.termKinds) ∧
    Evaluation.ofAnalysis Expression.evaluateIn (ofTree tree) = .ok evaluation ∧
    (⟨[], ["t", "b"]⟩, details) ∈ evaluation.analysis.resources ∧
    evaluation.Materializes ⟨[], ["t", "b"]⟩
      (evaluation.recordsOf ⟨[], ["t", "b"]⟩ details) true ∧
    (evaluation.records.map ResourceRecord.id).Nodup := by
  rcases ModuleTree.exists_ofText tracedText
      (fun tree => ((ofTree tree).ReadsBack : Bool) && ((ofTree tree).resources.all fun entry =>
        entry.2.isData || !ModuleTree.termKinds.contains entry.2.resourceType) &&
        ((ofTree tree).schedule = .ok tracedSchedule : Bool) &&
        (Table.find? ⟨[], ["t", "b"]⟩ (ofTree tree).resources).any ResourceDetails.isReplicated)
      (by decide +kernel) with ⟨tree, loaded, checked⟩
  simp only [Bool.and_eq_true, decide_eq_true_eq] at checked
  rcases checked with ⟨⟨⟨readsBack, kinds⟩, scheduled⟩, replicated⟩
  have unlike : ∀ entry ∈ (ofTree tree).resources, entry.2.isData = false →
      entry.2.resourceType ∉ ModuleTree.termKinds := by
    intro entry member managed
    simpa [managed] using List.all_eq_true.mp kinds entry member
  rcases ModuleTree.exists_loadFiles_of_load loaded with ⟨paths, _, fromFiles⟩
  have evaluated := Evaluation.ofAnalysis_of_schedule Expression.evaluateIn scheduled
  rcases records_match_instances readsBack evaluated fromFiles unlike with
    ⟨_, _, each, distinct⟩
  rcases (Option.any_eq_true _ _).mp replicated with ⟨details, found, counted⟩
  have member := Table.mem_of_find? found
  rcases each _ _ member with ⟨_, resource, _, _, _, same, _, materializes⟩
  rw [same] at counted
  have isReplicated : (resource.term.count.isSome || resource.term.forEach.isSome) = true := counted
  rw [isReplicated] at materializes
  exact ⟨paths, tree, _, _, fromFiles, readsBack, unlike, evaluated, member, materializes, distinct⟩

end Analysis

end Groundplan
