import Groundplan.Proofs.Index
/-!
Modules of a tree. A module is reached along the chain of calls that is its name, and
what the analysis of a tree knows under that name comes from the items of that module
alone.
-/

namespace Groundplan

namespace ModuleItem

def term? : ModuleItem → Option (FullName × Term)
  | term name given => some (name, given)
  | _ => none

def module? : ModuleItem → Option (ModuleName × ModuleDetails)
  | module name details => some (name, details)
  | _ => none

def resource? : ModuleItem → Option (FullName × ResourceDetails)
  | resource name details => some (name, details)
  | _ => none

theorem mem_filterMap_term? {items : List ModuleItem} {name : FullName} {given : Term} :
    (name, given) ∈ items.filterMap term? ↔ .term name given ∈ items := by
  rw [List.mem_filterMap]
  constructor
  · intro picked
    rcases picked with ⟨item, member, same⟩
    cases item <;> cases same
    exact member
  · intro member
    exact ⟨_, member, rfl⟩

end ModuleItem

namespace ModuleTree

/-- The module at the end of a chain of calls. -/
def at? : ModuleTree → ModuleName → Option ModuleTree
  | tree, [] => some tree
  | tree, call :: rest => (Table.find? call tree.children).bind fun child => child.at? rest

@[simp] theorem at?_nil (tree : ModuleTree) : tree.at? [] = some tree := rfl

theorem at?_append (tree : ModuleTree) (chain rest : ModuleName) :
    tree.at? (chain ++ rest) = (tree.at? chain).bind fun module => module.at? rest := by
  induction chain generalizing tree with
  | nil => rfl
  | cons call others induction =>
      rw [List.cons_append, at?, at?]
      cases Table.find? call tree.children with
      | none => rfl
      | some child => exact induction child

/-! ## Items of the modules of a tree -/

/-- The calls that were loaded, in order. -/
def loadedCalls (calls : List (ModuleCall × CallResult ModuleTree)) :
    List (String × ModuleTree) :=
  calls.filterMap fun call =>
    match call.2 with
    | .loaded child => some (call.1.name, child)
    | _ => none

theorem children_eq (tree : ModuleTree) : tree.children = Table.ofList (loadedCalls tree.calls) :=
  rfl

theorem childItems_eq (name : ModuleName) (calls : List (ModuleCall × CallResult ModuleTree)) :
    childItems name calls =
      (loadedCalls calls).map fun entry => (entry.1, entry.2.itemsAt (name ++ [entry.1])) := by
  induction calls with
  | nil => rfl
  | cons first rest induction =>
      rcases first with ⟨call, result⟩
      cases result with
      | loaded child =>
          rw [childItems, induction]
          rfl
      | _ => exact induction

theorem nodup_children (tree : ModuleTree) : (Table.keys tree.children).Nodup :=
  (Table.ordered_ofList _).nodup_keys

/-- The items of a tree are its own and those of its children. -/
theorem itemsAt_eq (name : ModuleName) (tree : ModuleTree) :
    tree.itemsAt name =
      tree.ownItems name ++
        tree.children.flatMap fun entry => entry.2.itemsAt (name ++ [entry.1]) := by
  have listed := Table.ofList_map (fun call child => itemsAt (name ++ [call]) child)
    (loadedCalls tree.calls)
  rcases tree with ⟨site, content, calls, given, variableProblems⟩
  rw [itemsAt, childItems_eq, listed, Table.values, List.map_map, children_eq, List.flatMap_def]
  rfl

theorem sizeOf_lt_of_mem_calls {tree child : ModuleTree} {call : ModuleCall}
    (member : (call, .loaded child) ∈ tree.calls) : sizeOf child < sizeOf tree := by
  have smaller := List.sizeOf_lt_of_mem member
  rcases tree with ⟨site, content, calls, given, variableProblems⟩
  simp only [Prod.mk.sizeOf_spec, CallResult.loaded.sizeOf_spec] at smaller
  simp only [ModuleTree.mk.sizeOf_spec]
  omega

theorem sizeOf_lt_of_mem_children {tree child : ModuleTree} {call : String}
    (member : (call, child) ∈ tree.children) : sizeOf child < sizeOf tree := by
  rcases List.mem_filterMap.mp (Table.mem_of_mem_ofList member) with
    ⟨⟨made, result⟩, listed, taken⟩
  cases result with
  | loaded loaded =>
      cases taken
      exact sizeOf_lt_of_mem_calls listed
  | _ => cases taken

section Entries

variable {κ : Type u} {α : Type v} {pick : ModuleItem → Option (κ × α)} {home : κ → ModuleName}

/-- Whether what is picked from the own items of a module stands under its name. -/
def PicksOwn (pick : ModuleItem → Option (κ × α)) (home : κ → ModuleName) : Prop :=
  ∀ (tree : ModuleTree) name, ∀ entry ∈ (tree.ownItems name).filterMap pick, home entry.1 = name

theorem prefix_of_mem_itemsAt (own : PicksOwn pick home) (tree : ModuleTree) (name : ModuleName)
    {entry : κ × α} (member : entry ∈ (tree.itemsAt name).filterMap pick) :
    name <+: home entry.1 := by
  rw [itemsAt_eq, List.filterMap_append] at member
  rcases List.mem_append.mp member with member | member
  · exact own tree name entry member ▸ List.prefix_rfl
  · rw [List.filterMap_flatMap, List.mem_flatMap] at member
    rcases member with ⟨⟨call, child⟩, isChild, member⟩
    have := sizeOf_lt_of_mem_children isChild
    exact (List.prefix_append name [call]).trans (prefix_of_mem_itemsAt own child _ member)
termination_by sizeOf tree

variable [Ord κ] [Std.LawfulEqOrd κ]

/-- What is picked under a key comes from the own items of the module that is its home. -/
theorem find?_itemsAt (own : PicksOwn pick home) {key : κ} {name rest : ModuleName}
    (tree : ModuleTree) (placed : home key = name ++ rest) :
    Table.find? key (Table.ofList ((tree.itemsAt name).filterMap pick)) =
      (tree.at? rest).bind fun module =>
        Table.find? key (Table.ofList ((module.ownItems (home key)).filterMap pick)) := by
  induction rest generalizing tree name with
  | nil =>
      rw [List.append_nil] at placed
      have notBelow : Table.find? key (Table.ofList ((tree.children.flatMap fun entry =>
          entry.2.itemsAt (name ++ [entry.1])).filterMap pick)) = none := by
        apply Table.find?_ofList_eq_none
        rintro entry member same
        rw [List.filterMap_flatMap, List.mem_flatMap] at member
        rcases member with ⟨child, _, member⟩
        have below := (prefix_of_mem_itemsAt own child.2 _ member).length_le
        rw [same, placed, List.length_append, List.length_singleton] at below
        omega
      rw [itemsAt_eq, List.filterMap_append, Table.find?_ofList_append, notBelow, placed]
      rfl
  | cons call rest induction =>
      have notOwn : Table.find? key (Table.ofList ((tree.ownItems name).filterMap pick)) =
          none := by
        apply Table.find?_ofList_eq_none
        rintro entry member same
        have here := own tree name entry member
        rw [same, placed] at here
        simp at here
      have elsewhere : ∀ child ∈ tree.children, child.1 ≠ call →
          ∀ entry ∈ (child.2.itemsAt (name ++ [child.1])).filterMap pick, entry.1 ≠ key := by
        intro child _ different entry member same
        have below := prefix_of_mem_itemsAt own child.2 _ member
        rw [same, placed, List.prefix_append_right_inj, List.cons_prefix_cons] at below
        exact different below.1
      rw [itemsAt_eq, List.filterMap_append, Table.find?_ofList_append, notOwn, Option.or_none,
        List.filterMap_flatMap,
        Table.find?_ofList_flatMap tree.nodup_children elsewhere, at?, Option.bind_assoc]
      refine Option.bind_congr fun child _ => ?_
      exact induction child (by rw [placed, List.append_assoc]; rfl)

end Entries

/-! ## Terms of one module -/

/-- The terms that a module has itself. -/
def ownTerms (tree : ModuleTree) (name : ModuleName) : NameTable Term :=
  Table.ofList ((tree.ownItems name).filterMap ModuleItem.term?)

end ModuleTree

namespace ModuleContent

/-- The resources under their names; of two with one name the later one counts. -/
def resourceTable (content : ModuleContent) (module : ModuleName) : NameTable Resource :=
  Table.ofList (content.resources.map fun resource => (⟨module, resource.path⟩, resource))

theorem of_find?_resourceTable {content : ModuleContent} {module : ModuleName} {name : FullName}
    {resource : Resource} (found : Table.find? name (content.resourceTable module) = some resource) :
    resource ∈ content.resources ∧ name = ⟨module, resource.path⟩ := by
  rcases List.mem_map.mp (Table.mem_of_mem_ofList (Table.mem_of_find? found)) with
    ⟨listed, member, same⟩
  cases same
  exact ⟨member, rfl⟩

theorem exists_find?_resourceTable {content : ModuleContent} (module : ModuleName)
    {resource : Resource} (member : resource ∈ content.resources) : ∃ counted,
      Table.find? ⟨module, resource.path⟩ (content.resourceTable module) = some counted :=
  Table.exists_find?_of_mem_keys
    (Table.mem_keys_ofList.mpr ⟨resource, List.mem_map_of_mem member⟩)

/-- Whether the content of a module declares a term of this path. -/
inductive HasTerm (content : ModuleContent) : LocalName → Prop where
  | ofVariable {name : String} (declared : name ∈ Table.keys content.defaults) :
      HasTerm content ["variable", name]
  | ofLocal {name : String} (declared : name ∈ Table.keys content.locals) :
      HasTerm content ["local", name]
  | ofResource {resource : Resource} (declared : resource ∈ content.resources) :
      HasTerm content resource.path
  | ofOutput {name : String} (declared : name ∈ Table.keys content.outputs) :
      HasTerm content ["output", name]
  | ofProvider {name : String} (declared : name ∈ Table.keys content.providers) :
      HasTerm content (FullName.providerConfig [] name).path
  | ofInput {call : ModuleCall} {argument : String} (made : call ∈ content.calls)
      (passed : argument ∈ Table.keys call.arguments) :
      HasTerm content ["input", call.name, argument]

end ModuleContent

namespace ModuleTree

theorem exists_mem_ownItems_iff {tree : ModuleTree} {name : ModuleName} {full : FullName} :
    (∃ term, (full, term) ∈ (tree.ownItems name).filterMap ModuleItem.term?) ↔
      full.module = name ∧ tree.content.HasTerm full.path := by
  simp only [List.mem_filterMap, ownItems, List.mem_cons, List.mem_append, List.mem_map,
    List.mem_flatMap]
  constructor
  · rintro ⟨term, item, (((((same | ⟨entry, member, same⟩) | ⟨entry, member, same⟩) |
      ⟨resource, member, listed⟩) | ⟨entry, member, same⟩) | ⟨entry, member, same⟩) |
      ⟨call, made, entry, member, same⟩, taken⟩
    · subst same; cases taken
    · subst same; cases taken
      exact ⟨rfl, .ofVariable (List.mem_map_of_mem member)⟩
    · subst same; cases taken
      exact ⟨rfl, .ofLocal (List.mem_map_of_mem member)⟩
    · rcases listed with same | same | none
      · subst same; cases taken
      · subst same; cases taken
        exact ⟨rfl, .ofResource member⟩
      · cases none
    · subst same; cases taken
      exact ⟨rfl, .ofOutput (List.mem_map_of_mem member)⟩
    · subst same; cases taken
      exact ⟨rfl, .ofProvider (List.mem_map_of_mem member)⟩
    · subst same; cases taken
      exact ⟨rfl, .ofInput made (List.mem_map_of_mem member)⟩
  · rcases full with ⟨module, path⟩
    rintro ⟨same, declares⟩
    dsimp only at same declares
    subst same
    cases declares with
    | ofVariable declared =>
        rcases List.mem_map.mp declared with ⟨entry, member, same⟩
        subst same
        exact ⟨_, _, .inl (.inl (.inl (.inl (.inl (.inr ⟨entry, member, rfl⟩))))), rfl⟩
    | ofLocal declared =>
        rcases List.mem_map.mp declared with ⟨entry, member, same⟩
        subst same
        exact ⟨_, _, .inl (.inl (.inl (.inl (.inr ⟨entry, member, rfl⟩)))), rfl⟩
    | @ofResource resource declared =>
        exact ⟨_, _, .inl (.inl (.inl (.inr ⟨resource, declared, .inr (.inl rfl)⟩))), rfl⟩
    | ofOutput declared =>
        rcases List.mem_map.mp declared with ⟨entry, member, same⟩
        subst same
        exact ⟨_, _, .inl (.inl (.inr ⟨entry, member, rfl⟩)), rfl⟩
    | ofProvider declared =>
        rcases List.mem_map.mp declared with ⟨entry, member, same⟩
        subst same
        exact ⟨_, _, .inl (.inr ⟨entry, member, rfl⟩), rfl⟩
    | @ofInput call argument made passed =>
        rcases List.mem_map.mp passed with ⟨entry, member, same⟩
        subst same
        exact ⟨_, _, .inr ⟨call, made, entry, member, rfl⟩, rfl⟩

theorem picksOwn_term? : PicksOwn ModuleItem.term? FullName.module := by
  intro tree name entry member
  exact (exists_mem_ownItems_iff.mp ⟨entry.2, member⟩).1

theorem filterMap_module?_ownItems (tree : ModuleTree) (name : ModuleName) :
    (tree.ownItems name).filterMap ModuleItem.module? = [(name, tree.details)] := by
  simp only [ownItems, List.cons_append, List.filterMap_cons, ModuleItem.module?,
    List.filterMap_append, List.filterMap_map, List.filterMap_flatMap, Function.comp_def,
    List.filterMap_nil, List.flatMap_eq_nil_iff, List.append_eq_nil_iff, List.cons.injEq,
    true_and]
  simp

theorem filterMap_resource?_ownItems (tree : ModuleTree) (name : ModuleName) :
    (tree.ownItems name).filterMap ModuleItem.resource? =
      tree.content.resources.map fun resource =>
        (⟨name, resource.path⟩, tree.content.details resource) := by
  have none {α : Type} (items : List α) :
      items.flatMap (fun _ => ([] : List (FullName × ResourceDetails))) = [] := by simp
  simp only [ownItems, List.cons_append, List.filterMap_cons, ModuleItem.resource?,
    List.filterMap_append, List.filterMap_flatMap, List.filterMap_nil, List.map_eq_flatMap, none,
    List.append_nil, List.nil_append]

theorem filterMap_term?_ownItems (tree : ModuleTree) (name : ModuleName) :
    (tree.ownItems name).filterMap ModuleItem.term? =
      (tree.content.defaults.map fun entry =>
        (⟨name, ["variable", entry.1]⟩, tree.variableTerm entry.1 entry.2)) ++
      (tree.content.locals.map fun entry =>
        (⟨name, ["local", entry.1]⟩, .ofExpression entry.2)) ++
      (tree.content.resources.map fun resource => (⟨name, resource.path⟩, resource.term)) ++
      (tree.content.outputs.map fun entry =>
        (⟨name, ["output", entry.1]⟩, .ofExpression entry.2)) ++
      (tree.content.providers.map fun entry => (FullName.providerConfig name entry.1, entry.2)) ++
      tree.content.calls.flatMap fun call => call.arguments.map fun argument =>
        (⟨name, ["input", call.name, argument.1]⟩, inputTerm call argument.2) := by
  simp only [ownItems, List.cons_append, List.filterMap_cons, ModuleItem.term?,
    List.filterMap_append, List.filterMap_flatMap, List.filterMap_nil, List.map_eq_flatMap]

theorem picksOwn_resource? : PicksOwn ModuleItem.resource? FullName.module := by
  intro tree name entry member
  rw [filterMap_resource?_ownItems] at member
  rcases List.mem_map.mp member with ⟨resource, _, same⟩
  exact same ▸ rfl

theorem picksOwn_module? : PicksOwn ModuleItem.module? id := by
  intro tree name entry member
  rw [filterMap_module?_ownItems, List.mem_singleton] at member
  rw [member]
  rfl

theorem mem_keys_ownTerms {tree : ModuleTree} {name : ModuleName} {full : FullName} :
    full ∈ Table.keys (tree.ownTerms name) ↔
      full.module = name ∧ tree.content.HasTerm full.path := by
  rw [ownTerms, Table.mem_keys_ofList, exists_mem_ownItems_iff]

/-- The kinds of terms whose paths have two keys, as those of managed resources. -/
def termKinds : List String := ["variable", "local", "output", "provider"]

/-- A resource that no other kind of term is named like has the term that it declares. -/
theorem find?_ownTerms_of_resource (tree : ModuleTree) {module : ModuleName}
    {resource : Resource}
    (found : Table.find? ⟨module, resource.path⟩ (tree.content.resourceTable module) =
      some resource)
    (unlike : resource.isData = false → resource.resourceType ∉ termKinds) :
    Table.find? ⟨module, resource.path⟩ (tree.ownTerms module) = some resource.term := by
  have notPair : ∀ kind ∈ termKinds, ∀ label, resource.path ≠ [kind, label] := by
    intro kind isKind label same
    cases isData : resource.isData with
    | true => simp [Resource.path, isData] at same
    | false =>
        simp only [Resource.path, isData, Bool.false_eq_true, if_false, List.nil_append,
          List.cons.injEq, and_true] at same
        exact unlike isData (same.1 ▸ isKind)
  have notInput : ∀ call argument, resource.path ≠ ["input", call, argument] := by
    intro call argument same
    cases isData : resource.isData <;> simp [Resource.path, isData] at same
  have absent (entries : List (FullName × Term))
      (elsewhere : ∀ entry ∈ entries, entry.1.path ≠ resource.path) :
      Table.find? ⟨module, resource.path⟩ (Table.ofList entries) = none :=
    Table.find?_ofList_eq_none fun entry member same =>
      elsewhere entry member (congrArg FullName.path same)
  have inputs := absent (tree.content.calls.flatMap fun call => call.arguments.map fun argument =>
      (⟨module, ["input", call.name, argument.1]⟩, inputTerm call argument.2)) (by
    intro entry member same
    rcases List.mem_flatMap.mp member with ⟨call, _, member⟩
    rcases List.mem_map.mp member with ⟨argument, _, rfl⟩
    exact notInput _ _ same.symm)
  have providers := absent (tree.content.providers.map fun entry =>
      (FullName.providerConfig module entry.1, entry.2)) (by
    intro entry member same
    rcases List.mem_map.mp member with ⟨provider, _, rfl⟩
    exact notPair "provider" (by decide) _ same.symm)
  have outputs := absent (tree.content.outputs.map fun entry =>
      (⟨module, ["output", entry.1]⟩, .ofExpression entry.2)) (by
    intro entry member same
    rcases List.mem_map.mp member with ⟨output, _, rfl⟩
    exact notPair "output" (by decide) _ same.symm)
  have declared := Table.find?_ofList_map ⟨module, resource.path⟩
    (fun resource : Resource => (⟨module, resource.path⟩ : FullName)) Resource.term
    tree.content.resources
  rw [ModuleContent.resourceTable] at found
  rw [found] at declared
  rw [ownTerms, filterMap_term?_ownItems, Table.find?_ofList_append, inputs,
    Table.find?_ofList_append, providers, Table.find?_ofList_append, outputs,
    Table.find?_ofList_append, declared]
  rfl

/-- A term whose first key can name resources is a block. -/
theorem isBlock_of_find?_ownTerms {tree : ModuleTree} {module : ModuleName} {name : FullName}
    {term : Term} (found : Table.find? name (tree.ownTerms module) = some term) {head : String}
    {rest : LocalName} (path : name.path = head :: rest)
    (named : head ∉ FullName.nonResourceHeads) : term.IsBlock := by
  have listed := Table.mem_of_mem_ofList (Table.mem_of_find? found)
  simp only [filterMap_term?_ownItems, List.mem_append, List.mem_flatMap] at listed
  rcases listed with ((((member | member) | member) | member) | member) | ⟨call, _, member⟩
  case inl.inl.inl.inr =>
    rcases List.mem_map.mp member with ⟨resource, _, same⟩
    cases same
    exact resource.isBlock
  all_goals
    rcases List.mem_map.mp member with ⟨entry, _, same⟩
    cases same
    cases path
    exact absurd (by decide) named

end ModuleTree

namespace Analysis

open ModuleTree

theorem termsOf_eq (items : List ModuleItem) :
    termsOf items = Table.ofList (items.filterMap ModuleItem.term?) := rfl

theorem modulesOf_eq (items : List ModuleItem) :
    modulesOf items = Table.ofList (items.filterMap ModuleItem.module?) := rfl

/-- A term of a tree is a term of the module that its name gives. -/
theorem find?_terms (tree : ModuleTree) (name : FullName) :
    Table.find? name (ofTree tree).terms =
      (tree.at? name.module).bind fun module =>
        Table.find? name (module.ownTerms name.module) := by
  have terms : (ofTree tree).terms =
      Table.ofList ((tree.itemsAt []).filterMap ModuleItem.term?) := termsOf_eq _
  rw [terms]
  exact find?_itemsAt picksOwn_term? tree rfl

theorem find?_resources (tree : ModuleTree) (name : FullName) :
    Table.find? name (ofTree tree).resources =
      (tree.at? name.module).bind fun module =>
        (Table.find? name (module.content.resourceTable name.module)).map
          module.content.details := by
  have resources : (ofTree tree).resources =
      Table.ofList ((tree.itemsAt []).filterMap ModuleItem.resource?) := rfl
  rw [resources, find?_itemsAt picksOwn_resource? tree rfl]
  refine Option.bind_congr fun module _ => ?_
  rw [filterMap_resource?_ownItems, Table.find?_ofList_map]
  rfl

theorem find?_modules (tree : ModuleTree) (name : ModuleName) :
    Table.find? name (ofTree tree).modules = (tree.at? name).map ModuleTree.details := by
  have modules : (ofTree tree).modules =
      Table.ofList ((tree.itemsAt []).filterMap ModuleItem.module?) := modulesOf_eq _
  have found := find?_itemsAt picksOwn_module? tree (show id name = [] ++ name from rfl)
  rw [modules, found]
  cases tree.at? name with
  | none => rfl
  | some module =>
      rw [Option.bind_some, id, filterMap_module?_ownItems]
      exact Table.find?_cons_self name _ _

/-- The names of a tree are those that the contents of its modules declare. -/
theorem mem_names_iff {tree : ModuleTree} {name : FullName} :
    name ∈ (ofTree tree).names ↔
      ∃ module, tree.at? name.module = some module ∧ module.content.HasTerm name.path := by
  rw [names, Table.mem_keys_iff_find?, find?_terms]
  constructor
  · rintro ⟨term, found⟩
    rcases Option.bind_eq_some_iff.mp found with ⟨module, placed, found⟩
    have own := Table.mem_keys_iff_find?.mpr ⟨term, found⟩
    exact ⟨module, placed, (mem_keys_ownTerms.mp own).2⟩
  · rintro ⟨module, placed, declares⟩
    have own := mem_keys_ownTerms.mpr ⟨rfl, declares⟩
    rcases Table.mem_keys_iff_find?.mp own with ⟨term, found⟩
    exact ⟨term, Option.bind_eq_some_iff.mpr ⟨module, placed, found⟩⟩

end Analysis

end Groundplan
