import Groundplan.Evaluation.Location
import Groundplan.Proofs.Cycles
import Groundplan.Proofs.Materialization
/-!
Where records come from. The identifier of a record names its resource, and from there the
way leads through the block of the resource and the calls of the modules around it to the
root module.
-/

namespace Groundplan

/-! ## Places of declarations -/

/-- Whether a block of a kind and with labels is written in one of the files at some paths. -/
structure SourceBlock.WrittenIn (files : Files) (paths : List String) (kind : String)
    (labels : List String) (located : SourceBlock) : Prop where
  listed : located.source.file ∈ paths
  reads : files.read located.source.file = .ok located.source.text
  parsed : ∃ body, Body.read? located.source.text = some body ∧ located.block ∈ body.blocks
  isKind : located.block.kind = kind
  isLabeled : located.block.labels = labels

namespace ModuleContent

variable {files : Files} {paths : List String} {content : ModuleContent}

/-- Whether resources and calls are placed where a block declares them. -/
structure IsPlaced (files : Files) (paths : List String) (content : ModuleContent) : Prop where
  resources : ∀ resource ∈ content.resources, resource.block.WrittenIn files paths
    (if resource.isData then "data" else "resource") [resource.resourceType, resource.label]
  calls : ∀ call ∈ content.calls, ∃ located : SourceBlock,
    located.WrittenIn files paths "module" [call.name] ∧ call.location = located.range

theorem writtenIn_findBlock? {path text : String} {file : Body} {block : Block}
    (listed : path ∈ paths) (reads : files.read path = .ok text)
    (parsed : Body.read? text = some file) (inFile : block ∈ file.blocks) :
    SourceBlock.WrittenIn files paths block.kind block.labels
      ⟨⟨path, text⟩, (file.findBlock? block.kind block.labels).getD block⟩ := by
  cases found : file.findBlock? block.kind block.labels with
  | none => exact ⟨listed, reads, ⟨file, parsed, inFile⟩, rfl, rfl⟩
  | some first =>
      have same := List.find?_some found
      simp only [Bool.and_eq_true, beq_iff_eq] at same
      exact ⟨listed, reads, ⟨file, parsed, List.mem_of_find?_eq_some found⟩, same.1, same.2⟩

theorem isPlaced_of_read (done : read files paths = .ok content) : IsPlaced files paths content := by
  refine of_read_blocks (IsPlaced files paths) ⟨by simp [empty], by simp [empty]⟩ ?_ done
  intro path text file content block listed reads parsed inFile placed
  have written := writtenIn_findBlock? listed reads parsed inFile
  have added : ∀ isData resourceType label located, located.WrittenIn files paths
      (if isData then "data" else "resource") [resourceType, label] →
      IsPlaced files paths { content with
        resources := content.resources ++
          [.ofBody isData resourceType label block.body located] } := by
    intro isData resourceType label located written
    refine ⟨fun resource member => ?_, placed.calls⟩
    rcases List.mem_append.mp member with member | member
    · exact placed.resources resource member
    · rw [List.mem_singleton.mp member]
      exact written
  unfold addBlock
  dsimp only
  split
  case h_3 resourceType label isKind isLabeled =>
      rw [isKind, isLabeled] at written ⊢
      exact added false resourceType label _ written
  case h_4 resourceType label isKind isLabeled =>
      rw [isKind, isLabeled] at written ⊢
      exact added true resourceType label _ written
  case h_7 name isKind isLabeled =>
      rw [isKind, isLabeled] at written
      refine ⟨placed.resources, fun call member => ?_⟩
      rcases List.mem_append.mp member with member | member
      · exact placed.calls call member
      · rw [List.mem_singleton.mp member, isKind, isLabeled]
        exact ⟨_, written, rfl⟩
  case h_5 => split <;> exact ⟨placed.resources, placed.calls⟩
  all_goals exact ⟨placed.resources, placed.calls⟩

end ModuleContent

namespace ModuleTree

variable {files : Files} {registry : Registry} {chain : List Location} {tree module : ModuleTree}
  {name : ModuleName} {calls : List ModuleCall}

/-! ## Calls that lead to a module -/

/-- The calls that lead from a tree to one of its modules, from the outside in. Each is
written in the module that makes it, and its module counts under its name. -/
inductive LedBy (files : Files) :
    (tree : ModuleTree) → ModuleName → List ModuleCall → (module : ModuleTree) → Prop where
  | here {tree : ModuleTree} : LedBy files tree [] [] tree
  | call {tree child module : ModuleTree} {made : ModuleCall} {located : SourceBlock}
      {rest : ModuleName} {calls : List ModuleCall}
      (counts : Table.find? made.name tree.children = some child)
      (loaded : (made, .loaded child) ∈ tree.calls)
      (written : located.WrittenIn files tree.site.files "module" [made.name])
      (placed : made.location = located.range)
      (remembered : child.site.location = some made.location)
      (below : LedBy files child rest calls module) :
      LedBy files tree (made.name :: rest) (made :: calls) module

theorem LedBy.length_eq (led : LedBy files tree name calls module) :
    calls.length = name.length := by
  induction led with
  | here => rfl
  | call _ _ _ _ _ _ induction => rw [List.length_cons, List.length_cons, induction]

/-- The modules on the way to a module remember the calls that lead there. -/
theorem LedBy.filterMap_location (led : LedBy files tree name calls module) :
    ((List.range name.length).map fun depth => name.take (depth + 1)).filterMap
        (fun name => (tree.at? name).bind fun module => module.site.location) =
      calls.map ModuleCall.location := by
  induction led with
  | here => rfl
  | @call tree child module made located rest calls counts _ _ _ remembered _ induction =>
      have further : ∀ name, tree.at? (made.name :: name) = child.at? name := by
        intro name
        rw [at?, counts, Option.bind_some]
      rw [List.length_cons, List.range_succ_eq_map, List.map_cons, List.map_map, List.map_cons,
        ← induction, List.take_succ_cons, List.take_zero, List.filterMap_cons]
      simp only [List.filterMap_map, Function.comp_def, Nat.succ_eq_add_one,
        List.take_succ_cons, further, at?_nil, Option.bind_some, remembered]

theorem isPlaced_of_loadIn {site : ModuleSite}
    (loaded : loadIn files registry chain site = .ok tree) :
    tree.content.IsPlaced files tree.site.files := by
  rcases loadIn_eq_ok_iff.mp loaded with ⟨content, done, rfl⟩
  exact ModuleContent.isPlaced_of_read done

/-- What a call of a loaded module leads to was loaded too, and it remembers the call. -/
theorem exists_loadIn_of_mem_calls {site : ModuleSite}
    (loaded : loadIn files registry chain site = .ok tree) {made : ModuleCall}
    {child : ModuleTree} (listed : (made, .loaded child) ∈ tree.calls) :
    made ∈ tree.content.calls ∧ child.site.location = some made.location ∧
      ∃ chain site, loadIn files registry chain site = .ok child := by
  rcases loadIn_eq_ok_iff.mp loaded with ⟨content, _, rfl⟩
  rcases List.mem_map.mp listed with ⟨call, declared, same⟩
  cases congrArg Prod.fst same
  rcases exists_of_callResult_loaded (congrArg Prod.snd same) with ⟨target, led, inner⟩
  refine ⟨declared, ?_, _, _, inner⟩
  rw [(loadedIn_of_loadIn inner).1]
  exact (callTarget_eq_loaded_iff.mp led).2.2.2

theorem exists_ledBy_of_loadIn {site : ModuleSite}
    (loaded : loadIn files registry chain site = .ok tree) (placed : tree.at? name = some module) :
    ∃ calls, LedBy files tree name calls module := by
  induction name generalizing chain site tree with
  | nil =>
      cases placed
      exact ⟨[], .here⟩
  | cons call rest induction =>
      rcases Option.bind_eq_some_iff.mp placed with ⟨child, counts, below⟩
      rcases exists_call_of_mem_children (Table.mem_of_find? counts) with ⟨made, isCall, listed⟩
      rcases exists_loadIn_of_mem_calls loaded listed with ⟨declared, remembered, _, _, inner⟩
      rcases (isPlaced_of_loadIn loaded).calls made declared with ⟨located, written, range⟩
      rcases induction inner below with ⟨calls, further⟩
      rw [← isCall] at counts ⊢
      exact ⟨made :: calls, .call counts listed written range remembered further⟩

section Root

variable {directory : String} {paths : List String} {inputs : VariableInputs}

/-- Every module of a tree is led to by calls, and what it declares is placed in its own
files. -/
theorem exists_ledBy (loaded : loadFiles files registry directory paths inputs = .ok tree)
    (placed : tree.at? name = some module) :
    (∃ calls, LedBy files tree name calls module) ∧
      module.content.IsPlaced files module.site.files := by
  rcases loadFiles_eq_ok_iff.mp loaded with ⟨plain, inner, rfl⟩
  rw [at?_withInputs] at placed
  split at placed
  · next isRoot =>
      have isPlaced : plain.content.IsPlaced files plain.site.files := isPlaced_of_loadIn inner
      cases placed
      rw [isRoot]
      exact ⟨⟨[], .here⟩, isPlaced⟩
  · next isCalled =>
      rcases exists_ledBy_of_loadIn inner placed with ⟨calls, led⟩
      rcases exists_loadIn_of_at? inner placed with ⟨_, _, innermost⟩
      refine ⟨⟨calls, ?_⟩, isPlaced_of_loadIn innermost⟩
      cases led with
      | here => exact absurd rfl isCalled
      | call counts listed written range remembered below =>
          exact .call counts listed written range remembered below

end Root

end ModuleTree

/-! ## From identifiers to resources -/

namespace Evaluation

open PhantomAttributes (toList_instanceName)

theorem dropIndexes_append {front : List Char} (plain : '[' ∉ front) (rest : List Char) :
    dropIndexes (front ++ rest) = front ++ dropIndexes rest := by
  induction front with
  | nil => rfl
  | cons first others induction =>
      have notBracket : first ≠ '[' := fun same => plain (same ▸ List.mem_cons_self)
      rw [List.cons_append, dropIndexes, if_neg notBracket,
        induction fun member => plain (List.mem_cons_of_mem _ member), List.cons_append]

theorem dropIndexes_index {digits : List Char} (inside : ']' ∉ digits) :
    dropIndexes ('[' :: (digits ++ [']'])) = [] := by
  have skipped : (digits ++ [']']).dropWhile (· != ']') = [']'] := by
    rw [List.dropWhile_append_of_pos]
    · rfl
    · intro c member
      rw [bne_iff_ne]
      intro same
      exact inside (same ▸ member)
  rw [dropIndexes, if_pos rfl]
  split
  · next nothing => cases skipped.symm.trans nothing
  · next after found =>
      cases skipped.symm.trans found
      rw [dropIndexes]

/-- Without its indexes the identifier of a record is the text of its resource. -/
theorem Owns.dropIndexes_eq {name : FullName} (wellFormed : name.WellFormed) {id : String}
    (owns : Owns name id) : dropIndexes id.toList = name.text.toList := by
  have plain := FullName.bracket_not_mem_text wellFormed
  rcases owns with rfl | ⟨position, rfl⟩
  · have whole := dropIndexes_append plain []
    rw [List.append_nil, dropIndexes, List.append_nil] at whole
    exact whole
  · have inside : ']' ∉ Nat.toDigits 10 position := by
      intro member
      have decimal := Nat.isDigit_of_mem_toDigits (by decide) (by decide) member
      exact absurd decimal (by decide)
    rw [toList_instanceName, dropIndexes_append plain, dropIndexes_index inside, List.append_nil]

theorem Owns.resourceOfId?_eq {evaluation : Evaluation} {name : FullName}
    {details : ResourceDetails} (wellFormed : name.WellFormed)
    (found : Table.find? name evaluation.analysis.resources = some details) {id : String}
    (owns : Owns name id) : evaluation.resourceOfId? id = some (name, details) := by
  rw [resourceOfId?, owns.dropIndexes_eq wellFormed, String.ofList_toList,
    FullName.read_text wellFormed]
  dsimp only
  rw [found, Option.map_some]

end Evaluation

namespace Analysis

variable {files : Files} {registry : Registry} {directory : String} {paths : List String}
  {inputs : VariableInputs} {tree module : ModuleTree} {evaluator : Evaluator}
  {evaluation : Evaluation} {name : FullName} {details : ResourceDetails}

/-- An identifier of a resource leads to its block, and to the calls around it. -/
theorem locate_of_owns (analyzed : evaluation.analysis = ofTree tree) (wellFormed : name.WellFormed)
    (found : Table.find? name (ofTree tree).resources = some details) {calls : List ModuleCall}
    (led : ModuleTree.LedBy files tree name.module calls module) {id : String}
    (owns : Evaluation.Owns name id) (accessor : Accessor) :
    evaluation.locate id accessor =
      details.block.locate accessor :: (calls.map ModuleCall.location).reverse := by
  have around : (Evaluation.enclosing name.module).filterMap (fun module =>
      (Table.find? module (ofTree tree).modules).bind ModuleDetails.location) =
      (calls.map ModuleCall.location).reverse := by
    rw [← led.filterMap_location, Evaluation.enclosing, List.map_reverse, List.filterMap_reverse]
    simp only [find?_modules, Option.bind_map]
    rfl
  rw [Evaluation.locate, owns.resourceOfId?_eq wellFormed (analyzed ▸ found), analyzed]
  exact congrArg _ around

/-- Every record leads back to its source: to a part of the block that declares its resource,
and from there through the blocks of the calls around it, from the inside out. -/
theorem records_located (readsBack : (ofTree tree).ReadsBack)
    (evaluated : Evaluation.ofAnalysis evaluator (ofTree tree) = .ok evaluation)
    (loaded : ModuleTree.loadFiles files registry directory paths inputs = .ok tree) :
    ∀ name details, (name, details) ∈ evaluation.analysis.resources →
      ∀ record ∈ evaluation.recordsOf name details,
        ∃ module calls, ModuleTree.LedBy files tree name.module calls module ∧
          (∃ resource ∈ module.content.resources, resource.path = name.path ∧
            details = module.content.details resource ∧
            details.block.WrittenIn files module.site.files
              (if resource.isData then "data" else "resource")
              [resource.resourceType, resource.label]) ∧
          ∀ accessor,
            evaluation.locate record.id accessor =
              details.block.locate accessor :: (calls.map ModuleCall.location).reverse ∧
            (evaluation.locate record.id accessor).length = name.module.length + 1 := by
  intro name details member record isRecord
  have analyzed := (Evaluation.eq_of_ofAnalysis evaluated).2.1
  rw [analyzed] at member
  have ordered : Table.Ordered (ofTree tree).resources := Table.ordered_ofList _
  have found := ordered.find?_eq_some_iff.mpr member
  have counted := found
  rw [find?_resources] at counted
  rcases Option.bind_eq_some_iff.mp counted with ⟨module, placed, counted⟩
  rcases Option.map_eq_some_iff.mp counted with ⟨resource, counted, isDetails⟩
  rcases ModuleContent.of_find?_resourceTable counted with ⟨declared, same⟩
  have path : resource.path = name.path := (congrArg FullName.path same).symm
  have named : name ∈ (ofTree tree).names :=
    mem_names_iff.mpr ⟨module, placed, path ▸ .ofResource declared⟩
  have wellFormed := FullName.wellFormed_of_read (readsBack name named)
  rcases ModuleTree.exists_ledBy loaded placed with ⟨⟨calls, led⟩, isPlaced⟩
  refine ⟨module, calls, led, ⟨resource, declared, path, isDetails.symm, ?_⟩, ?_⟩
  · rw [← isDetails]
    exact isPlaced.resources resource declared
  · intro accessor
    have located := locate_of_owns analyzed wellFormed found led
      (Evaluation.owns_of_mem_recordsOf isRecord) accessor
    refine ⟨located, ?_⟩
    rw [located, List.length_cons, List.length_reverse, List.length_map, led.length_eq]

/-- A module with a counted resource, two calls below the root. -/
def nestedTexts : List (String × String) :=
  [("/r/main.tf", "module \"a\" \x7b\n source = \"./a\"\n\x7d\n"),
    ("/r/a/main.tf", "\nmodule \"b\" \x7b\n source = \"./b\"\n\x7d\n"),
    ("/r/a/b/main.tf", "resource \"t\" \"x\" \x7b\n count = 2\n size = 1\n\x7d\n")]

/-- The second instance of a resource two calls below the root is located in three files. -/
theorem records_located_nested : ∃ paths tree evaluation details record module calls,
    ModuleTree.loadFiles (Files.ofList nestedTexts) [] "/r" paths .empty = .ok tree ∧
    (ofTree tree).ReadsBack ∧
    Evaluation.ofAnalysis Expression.evaluateIn (ofTree tree) = .ok evaluation ∧
    (⟨["a", "b"], ["t", "x"]⟩, details) ∈ evaluation.analysis.resources ∧
    record ∈ evaluation.recordsOf ⟨["a", "b"], ["t", "x"]⟩ details ∧
    record.id = "module.a.module.b.t.x[1]" ∧
    ModuleTree.LedBy (Files.ofList nestedTexts) tree ["a", "b"] calls module ∧
    (evaluation.locate record.id [.key "size"]).length = 3 ∧
    details.block.locate [.key "size"] :: (calls.map ModuleCall.location).reverse =
      evaluation.locate record.id [.key "size"] ∧
    (evaluation.locate record.id [.key "size"]).map (fun range => (range.file, range.start.line)) =
      [("/r/./a/./b/main.tf", 3), ("/r/./a/main.tf", 2), ("/r/main.tf", 1)] := by
  rcases ModuleTree.exists_of_check (ModuleTree.load (Files.ofList nestedTexts) [] "/r" .empty)
      (fun tree => ((ofTree tree).ReadsBack : Bool) &&
      (Evaluation.ofAnalysis Expression.evaluateIn (ofTree tree)).toOption.any fun evaluation =>
        (Table.find? ⟨["a", "b"], ["t", "x"]⟩ evaluation.analysis.resources).any fun details =>
          (evaluation.recordsOf ⟨["a", "b"], ["t", "x"]⟩ details).any fun record =>
            (record.id = "module.a.module.b.t.x[1]" : Bool) &&
            ((evaluation.locate record.id [.key "size"]).map
                (fun range => (range.file, range.start.line)) =
              [("/r/./a/./b/main.tf", 3), ("/r/./a/main.tf", 2), ("/r/main.tf", 1)] : Bool))
      (by decide +kernel) with ⟨tree, loaded, checked⟩
  simp only [Bool.and_eq_true, decide_eq_true_eq] at checked
  rcases checked with ⟨readsBack, checked⟩
  rcases ModuleTree.exists_of_check _ _ checked with ⟨evaluation, evaluated, checked⟩
  rcases (Option.any_eq_true _ _).mp checked with ⟨details, found, checked⟩
  rcases List.any_eq_true.mp checked with ⟨record, isRecord, checked⟩
  simp only [Bool.and_eq_true, decide_eq_true_eq] at checked
  rcases ModuleTree.exists_loadFiles_of_load loaded with ⟨paths, _, fromFiles⟩
  have member := Table.mem_of_find? found
  rcases records_located readsBack evaluated fromFiles _ _ member record isRecord with
    ⟨module, calls, led, _, located⟩
  exact ⟨paths, tree, evaluation, details, record, module, calls, fromFiles, readsBack, evaluated,
    member, isRecord, checked.1, led, (located _).2, (located _).1.symm, checked.2⟩

end Analysis

end Groundplan
