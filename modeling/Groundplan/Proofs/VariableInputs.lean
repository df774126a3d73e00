import Groundplan.Proofs.Layouts
import Groundplan.Proofs.Questions
/-!
Values of the variables of a root module. A value is a literal one, or else that of the last
variable file that loads and defines the variable, or else the default. A variable file that
does not load leaves one problem behind and nothing else, and no called module sees a value.
-/

namespace Groundplan

/-! ## The order of variable files -/

namespace VariableFile

variable {files : Files} {directory path name : String}

/-- Whether a list holds the names with an ending, each once and in order. -/
structure SortedWith (ending : String) (names found : List String) : Prop where
  ascending : Table.Ascending found
  mem_iff : ∀ name, name ∈ found ↔ name ∈ names ∧ ∃ front, name = front ++ ending

/-- The files of a directory that apply by their name, from the first to the last. -/
inductive Found (files : Files) (directory : String) : List String → Prop where
  | unlisted {error : FileError} (fails : files.list directory = .error error) :
      Found files directory []
  | listed {names settings objects : List String} (lists : files.list directory = .ok names)
      (ofSettings : SortedWith ".auto.tfvars" names settings)
      (ofObjects : SortedWith ".auto.tfvars.json" names objects) :
      Found files directory
        ((["terraform.tfvars", "terraform.tfvars.json"].filter names.contains ++
          settings ++ objects).map (Path.join directory))

theorem hasEnding_iff {ending : String} :
    hasEnding ending name = true ↔ ∃ front, name = front ++ ending := by
  rw [hasEnding, List.isSuffixOf_iff_suffix]
  constructor
  · intro ends
    rcases ends with ⟨front, letters⟩
    refine ⟨String.ofList front, ?_⟩
    rw [← String.toList_inj, String.toList_append, String.toList_ofList, letters]
  · intro ends
    rcases ends with ⟨front, same⟩
    exact ⟨front.toList, by rw [same, String.toList_append]⟩

theorem sortedWith_filter {names : List String} (ascending : Table.Ascending names)
    (ending : String) : SortedWith ending names (names.filter (hasEnding ending)) where
  ascending := ascending.filter _
  mem_iff name := by rw [List.mem_filter, hasEnding_iff]

theorem SortedWith.unique {ending : String} {names first second : List String}
    (inFirst : SortedWith ending names first) (inSecond : SortedWith ending names second) :
    first = second := by
  apply inFirst.ascending.ext inSecond.ascending
  intro name
  rw [inFirst.mem_iff, inSecond.mem_iff]

/-- The files that apply by their name are those that are looked for. -/
theorem found_iff (ordered : Table.Ordered files.entries) {paths : List String} :
    Found files directory paths ↔ paths = (find files directory).toOption.getD [] := by
  rw [find]
  cases lists : files.list directory with
  | error error =>
      constructor
      · intro found
        cases found with
        | unlisted => rfl
        | listed listed _ _ => cases lists.symm.trans listed
      · intro isEmpty
        rw [isEmpty]
        exact .unlisted lists
  | ok names =>
      have ascending := Files.ascending_of_list ordered lists
      have settings := sortedWith_filter ascending ".auto.tfvars"
      have objects := sortedWith_filter ascending ".auto.tfvars.json"
      have same : applicable names =
          ["terraform.tfvars", "terraform.tfvars.json"].filter names.contains ++
            names.filter (hasEnding ".auto.tfvars") ++
            names.filter (hasEnding ".auto.tfvars.json") := by
        simp [applicable, fixedNames, automaticEndings]
      constructor
      · intro found
        cases found with
        | unlisted fails => cases lists.symm.trans fails
        | listed listed ofSettings ofObjects =>
            cases lists.symm.trans listed
            rw [ofSettings.unique settings, ofObjects.unique objects, ← same]
            rfl
      · intro isApplicable
        have found := Found.listed lists settings objects
        rw [← same] at found
        rw [isApplicable]
        exact found

/-! ## What a variable file gives -/

/-- The values that a file gives if it can be read, parsed and evaluated as a whole. Of two
values for one variable the later one counts. -/
inductive Gives (files : Files) (path : String) : Table String Value → Prop where
  | object {text : String} {fields : List (String × Json)} (reads : files.read path = .ok text)
      (named : Path.extension? path = some "json")
      (parses : Json.read? text = some (.object fields)) :
      Gives files path (Table.ofList (fields.map fun field => (field.1, Value.ofJson field.2)))
  | settings {text : String} {settings : List Setting} {entries : List (String × Value)}
      (reads : files.read path = .ok text) (named : Path.extension? path ≠ some "json")
      (parses : Body.read? text = some ⟨settings, []⟩)
      (evaluates : List.Forall₂ (fun setting entry =>
        setting.key = entry.1 ∧ setting.value.literalValue = .ok entry.2) settings entries) :
      Gives files path (Table.ofList entries)

theorem ofJsonFields_eq_map (fields : List (String × Json)) :
    Value.ofJsonFields fields = fields.map fun field => (field.1, Value.ofJson field.2) := by
  induction fields with
  | nil => rfl
  | cons field rest induction => rw [Value.ofJsonFields, induction, List.map_cons]

theorem ofDocument_eq_ok_iff {text : String} {values : Table String Value} :
    ofDocument text = .ok values ↔ ∃ fields, Json.read? text = some (.object fields) ∧
      values = Table.ofList (fields.map fun field => (field.1, Value.ofJson field.2)) := by
  rw [ofDocument]
  cases Json.read? text with
  | none => simp
  | some document =>
      cases document with
      | number value =>
          rcases Value.numberOfJson_eq value with ⟨number, same⟩ | same <;>
            simp [Value.ofJson, same]
      | _ => simp [Value.ofJson, ofJsonFields_eq_map, eq_comm]

theorem settingValue_eq_ok_iff {setting : Setting} {entry : String × Value} :
    settingValue setting = .ok entry ↔
      setting.key = entry.1 ∧ setting.value.literalValue = .ok entry.2 := by
  rcases entry with ⟨key, value⟩
  rw [settingValue]
  cases setting.value.literalValue <;> simp

theorem mapM_settingValue_eq_ok_iff {settings : List Setting} {entries : List (String × Value)} :
    settings.mapM settingValue = .ok entries ↔
      List.Forall₂ (fun setting entry =>
        setting.key = entry.1 ∧ setting.value.literalValue = .ok entry.2) settings entries := by
  induction settings generalizing entries with
  | nil => simp [pure, Except.pure, eq_comm]
  | cons setting rest induction =>
      simp only [List.forall₂_cons_left_iff, ← induction]
      simp only [← settingValue_eq_ok_iff, List.mapM_cons]
      cases settingValue setting with
      | error error => simp [bind, Except.bind]
      | ok entry =>
          cases rest.mapM settingValue with
          | error error => simp [bind, Except.bind]
          | ok others => simp [bind, Except.bind, pure, Except.pure, eq_comm]

theorem ofBody_eq_ok_iff {text : String} {values : Table String Value} :
    ofBody text = .ok values ↔ ∃ settings entries, Body.read? text = some ⟨settings, []⟩ ∧
      settings.mapM settingValue = .ok entries ∧ values = Table.ofList entries := by
  rw [ofBody]
  cases Body.read? text with
  | none => simp
  | some body =>
      rcases body with ⟨settings, blocks⟩
      cases blocks with
      | cons block rest => simp
      | nil =>
          simp only [Option.some.injEq, Body.mk.injEq, and_true, exists_and_left, exists_eq_left']
          cases settings.mapM settingValue with
          | error error => simp [bind, Except.bind]
          | ok entries => simp [bind, Except.bind, pure, Except.pure, eq_comm]

theorem load_eq_ok_iff {values : Table String Value} :
    load files path = .ok values ↔ Gives files path values := by
  rw [load]
  constructor
  · intro loads
    split at loads
    · cases loads
    · next text reads =>
        split at loads
        · next named =>
            rcases ofDocument_eq_ok_iff.mp loads with ⟨fields, parses, rfl⟩
            exact .object reads (by simpa using named) parses
        · next named =>
            rcases ofBody_eq_ok_iff.mp loads with ⟨settings, entries, parses, evaluated, rfl⟩
            exact .settings reads (by simpa using named) parses
              (mapM_settingValue_eq_ok_iff.mp evaluated)
  · intro gives
    cases gives with
    | object reads named parses =>
        simp only [reads, named, beq_self_eq_true, if_true]
        exact ofDocument_eq_ok_iff.mpr ⟨_, parses, rfl⟩
    | settings reads named parses evaluates =>
        simp only [reads, beq_iff_eq, named, if_false]
        exact ofBody_eq_ok_iff.mpr
          ⟨_, _, parses, mapM_settingValue_eq_ok_iff.mpr evaluates, rfl⟩

theorem Gives.ordered {values : Table String Value} (gives : Gives files path values) :
    Table.Ordered values := by
  cases gives with
  | object => exact Table.ordered_ofList _
  | settings => exact Table.ordered_ofList _

/-- A file that gives no values cannot be loaded. -/
theorem exists_load_error (nothing : ¬∃ values, Gives files path values) :
    ∃ error, load files path = .error error := by
  cases loads : load files path with
  | error error => exact ⟨error, rfl⟩
  | ok values => exact absurd ⟨values, load_eq_ok_iff.mp loads⟩ nothing

/-- The value that a file gives for a variable, if it gives one. -/
def value? (files : Files) (name path : String) : Option Value :=
  (load files path).toOption.bind (Table.find? name)

/-- The problem that a file leaves behind if it does not load. -/
def problem? (files : Files) (path : String) : Option Problem :=
  match load files path with
  | .ok _ => none
  | .error error => some (.variableFile path error.message)

theorem value?_eq_some_iff {value : Value} : value? files name path = some value ↔
    ∃ values, Gives files path values ∧ Table.find? name values = some value := by
  simp only [value?, ← load_eq_ok_iff]
  cases load files path <;> simp [Except.toOption]

theorem value?_eq_none_iff : value? files name path = none ↔
    ∀ values, Gives files path values → Table.find? name values = none := by
  simp only [value?, ← load_eq_ok_iff]
  cases load files path <;> simp [Except.toOption]

theorem value?_of_load_error {error : VariableFileError} (fails : load files path = .error error) :
    value? files name path = none := by
  rw [value?, fails]
  rfl

end VariableFile

/-! ## Where a value comes from -/

/-- The term of a variable with a value from outside and a default, if it has them. -/
def Term.ofVariable (given : Option Value) (fallback : Option Expression) : Term :=
  match given, fallback with
  | some value, _ => .ofValue value
  | none, some expression => .ofExpression expression
  | none, none => .ofValue .unknown

namespace VariableInputs

open VariableFile

variable {files : Files} {order : List String} {literals : Table String Value} {name : String}
  {fallback : Option Expression} {term : Term}

/-- Whether a term is that of a variable with a default, for literal values and variable files
that apply in an order. -/
inductive Settles (files : Files) (order : List String) (literals : Table String Value)
    (name : String) (fallback : Option Expression) : Term → Prop where
  | literal {value : Value} (given : Table.find? name literals = some value) :
      Settles files order literals name fallback (.ofValue value)
  | file {before after : List String} {path : String} {values : Table String Value}
      {value : Value} (noLiteral : Table.find? name literals = none)
      (split : order = before ++ path :: after) (gives : Gives files path values)
      (defines : Table.find? name values = some value)
      (last : ∀ later ∈ after, ∀ values, Gives files later values →
        Table.find? name values = none) :
      Settles files order literals name fallback (.ofValue value)
  | default {expression : Expression} (noLiteral : Table.find? name literals = none)
      (noFile : ∀ path ∈ order, ∀ values, Gives files path values →
        Table.find? name values = none) (isDefault : fallback = some expression) :
      Settles files order literals name fallback (.ofExpression expression)
  | unknown (noLiteral : Table.find? name literals = none)
      (noFile : ∀ path ∈ order, ∀ values, Gives files path values →
        Table.find? name values = none) (noDefault : fallback = none) :
      Settles files order literals name fallback (.ofValue .unknown)

/-- The value for a variable from outside the module. -/
def givenValue? (files : Files) (order : List String) (literals : Table String Value)
    (name : String) : Option Value :=
  (Table.find? name literals).or (order.reverse.findSome? (value? files name))

theorem findSome?_value?_eq_none_iff {paths : List String} :
    paths.reverse.findSome? (value? files name) = none ↔ ∀ path ∈ paths, ∀ values,
      Gives files path values → Table.find? name values = none := by
  simp only [List.findSome?_eq_none_iff, List.mem_reverse, value?_eq_none_iff]

theorem findSome?_value?_eq_some_iff {paths : List String} {value : Value} :
    paths.reverse.findSome? (value? files name) = some value ↔
      ∃ before path after, paths = before ++ path :: after ∧
        value? files name path = some value ∧ after.reverse.findSome? (value? files name) = none := by
  rw [List.findSome?_eq_some_iff]
  constructor
  · intro found
    rcases found with ⟨later, path, earlier, split, defines, last⟩
    refine ⟨earlier.reverse, path, later.reverse, ?_, defines, ?_⟩
    · rw [← List.reverse_reverse paths, split]
      simp
    · simpa using last
  · intro found
    rcases found with ⟨before, path, after, split, defines, last⟩
    refine ⟨after.reverse, path, before.reverse, ?_, defines, ?_⟩
    · simp [split]
    · simpa using last

/-- The order of the files settles the term of a variable, and settles it once. -/
theorem settles_iff : Settles files order literals name fallback term ↔
    term = .ofVariable (givenValue? files order literals name) fallback := by
  rw [givenValue?]
  constructor
  · intro settles
    cases settles with
    | literal given =>
        rw [given]
        rfl
    | file noLiteral split gives defines last =>
        have here := value?_eq_some_iff.mpr ⟨_, gives, defines⟩
        have found := findSome?_value?_eq_some_iff.mpr
          ⟨_, _, _, split, here, findSome?_value?_eq_none_iff.mpr last⟩
        rw [noLiteral, found]
        rfl
    | default noLiteral noFile isDefault =>
        rw [noLiteral, findSome?_value?_eq_none_iff.mpr noFile, isDefault]
        rfl
    | unknown noLiteral noFile noDefault =>
        rw [noLiteral, findSome?_value?_eq_none_iff.mpr noFile, noDefault]
        rfl
  · intro isTerm
    rw [isTerm]
    cases given : Table.find? name literals with
    | some value => exact .literal given
    | none =>
        rw [Option.none_or]
        cases found : order.reverse.findSome? (value? files name) with
        | some value =>
            rcases findSome?_value?_eq_some_iff.mp found with
              ⟨before, path, after, split, defines, last⟩
            rcases value?_eq_some_iff.mp defines with ⟨values, gives, defines⟩
            exact .file given split gives defines (findSome?_value?_eq_none_iff.mp last)
        | none =>
            have noFile := findSome?_value?_eq_none_iff.mp found
            cases fallback with
            | some expression => exact .default given noFile rfl
            | none => exact .unknown given noFile rfl

/-- A file that does not load settles nothing. -/
theorem settles_append_cons_iff {before after : List String} {path : String}
    {error : VariableFileError} (fails : load files path = .error error) :
    Settles files (before ++ path :: after) literals name fallback term ↔
      Settles files (before ++ after) literals name fallback term := by
  have same : givenValue? files (before ++ path :: after) literals name =
      givenValue? files (before ++ after) literals name := by
    simp [givenValue?, List.findSome?_append, value?_of_load_error fails]
  rw [settles_iff, settles_iff, same]

/-! ## One file after the other -/

theorem find?_applyFile (taken : Table String Value × List Problem) (path : String) :
    Table.find? name (applyFile files taken path).1 =
      (value? files name path).or (Table.find? name taken.1) := by
  rw [applyFile, value?]
  cases loads : load files path with
  | error error => rfl
  | ok values => exact Table.find?_union (load_eq_ok_iff.mp loads).ordered name taken.1

/-- The last file that defines a variable gives its value. -/
theorem find?_foldl_applyFile (order : List String)
    (taken : Table String Value × List Problem) :
    Table.find? name (order.foldl (applyFile files) taken).1 =
      (order.reverse.findSome? (value? files name)).or (Table.find? name taken.1) := by
  induction order generalizing taken with
  | nil => rfl
  | cons path rest induction =>
      rw [List.foldl_cons, induction, find?_applyFile, List.reverse_cons, List.findSome?_append,
        List.findSome?_singleton, Option.or_assoc]

theorem problems_foldl_applyFile (order : List String)
    (taken : Table String Value × List Problem) :
    (order.foldl (applyFile files) taken).2 = taken.2 ++ order.filterMap (problem? files) := by
  induction order generalizing taken with
  | nil => simp
  | cons path rest induction =>
      rw [List.foldl_cons, induction, List.filterMap_cons, applyFile, problem?]
      cases load files path <;> simp

end VariableInputs

/-- The variables of a module that was read have one default each. -/
theorem ModuleContent.ordered_defaults {files : Files} {paths : List String}
    {content : ModuleContent} (done : read files paths = .ok content) :
    Table.Ordered content.defaults := by
  refine of_read (fun content => Table.Ordered content.defaults) Table.ordered_nil ?_ done
  intro source file content block ordered
  unfold addBlock
  dsimp only
  split
  case h_1 => exact Table.ordered_insert _ _ ordered
  case h_5 => split <;> exact ordered
  all_goals exact ordered

def Problem.isVariableFile : Problem → Bool
  | variableFile _ _ => true
  | _ => false

namespace ModuleTree

open VariableFile VariableInputs

variable {files others : Files} {registry : Registry} {inputs : VariableInputs}
  {tree plain : ModuleTree} {directory : String} {paths : List String}

theorem variableTerm_withInputs (ordered : Table.Ordered inputs.values) (name : String)
    (fallback : Option Expression) :
    (tree.withInputs files inputs).variableTerm name fallback =
      .ofVariable (givenValue? files (inputs.filesFor files tree.site.directory) inputs.values
        name) fallback := by
  have given : Table.find? name (tree.withInputs files inputs).given =
      givenValue? files (inputs.filesFor files tree.site.directory) inputs.values name := by
    rw [withInputs, givenValue?]
    dsimp only
    rw [Table.find?_union ordered, find?_foldl_applyFile, Table.find?_nil, Option.or_none]
  rw [← given]
  rfl

theorem variableProblems_eq : (tree.withInputs files inputs).variableProblems =
    (inputs.filesFor files tree.site.directory).filterMap (problem? files) := by
  rw [withInputs]
  dsimp only
  rw [problems_foldl_applyFile, List.nil_append]

/-! ## Terms of the root module -/

/-- What a tree visits under the name of a variable of its root. -/
theorem mem_items_variable_iff (distinct : (Table.keys tree.content.defaults).Nodup)
    {name : String} {fallback : Option Expression}
    (declared : (name, fallback) ∈ tree.content.defaults) {term : Term} :
    .term ⟨[], ["variable", name]⟩ term ∈ tree.items ↔
      term = tree.variableTerm name fallback ∨
        ∃ resource ∈ tree.content.resources, resource.path = ["variable", name] ∧
          resource.term = term := by
  have own : .term ⟨[], ["variable", name]⟩ term ∈ tree.items ↔
      ((⟨[], ["variable", name]⟩ : FullName), term) ∈
        (tree.ownItems []).filterMap ModuleItem.term? := by
    rw [items, itemsAt_eq, List.mem_append, ModuleItem.mem_filterMap_term?, or_iff_left]
    intro below
    rcases List.mem_flatMap.mp below with ⟨⟨call, child⟩, _, member⟩
    have deeper := prefix_of_mem_itemsAt picksOwn_term? child [call]
      (ModuleItem.mem_filterMap_term?.mpr member)
    cases List.prefix_nil.mp deeper
  rw [own, filterMap_term?_ownItems]
  simp only [List.mem_append, List.mem_map, List.mem_flatMap, Prod.mk.injEq, FullName.mk.injEq,
    FullName.providerConfig, List.cons.injEq, String.reduceEq, true_and, and_true, false_and,
    and_false, exists_false, or_false]
  constructor
  · intro listed
    rcases listed with ⟨entry, member, same, rfl⟩ | ⟨resource, member, path, rfl⟩
    · rcases entry with ⟨_, other⟩
      subst same
      rw [Table.eq_of_nodup_keys distinct declared member]
      exact .inl rfl
    · exact .inr ⟨resource, member, path, rfl⟩
  · intro given
    rcases given with rfl | ⟨resource, member, path, rfl⟩
    · exact .inl ⟨_, declared, rfl, rfl⟩
    · exact .inr ⟨resource, member, path, rfl⟩

/-- What the analysis of a tree finds under a name of the root is visited under that name. -/
theorem exists_find?_terms_root {full : FullName} (isRoot : full.module = [])
    (declares : tree.content.HasTerm full.path) :
    ∃ term, Table.find? full (Analysis.ofTree tree).terms = some term ∧
      .term full term ∈ tree.items := by
  have named : full ∈ Table.keys (tree.ownTerms full.module) :=
    mem_keys_ownTerms.mpr ⟨rfl, declares⟩
  rcases Table.mem_keys_iff_find?.mp named with ⟨term, found⟩
  have listed := ModuleItem.mem_filterMap_term?.mp
    (Table.mem_of_mem_ofList (Table.mem_of_find? found))
  rw [isRoot] at found listed
  refine ⟨term, ?_, ?_⟩
  · rw [Analysis.find?_terms, isRoot]
    exact found
  · rw [items, itemsAt_eq]
    exact List.mem_append_left _ listed

/-! ## Problems with variable files -/

theorem filter_isVariableFile_ownProblems (tree : ModuleTree) :
    tree.ownProblems.filter Problem.isVariableFile =
      tree.variableProblems.filter Problem.isVariableFile := by
  have ofCalls : (tree.calls.filterMap fun call => call.2.problem? call.1).filter
      Problem.isVariableFile = [] :=
    filter_callProblems_eq_nil (fun _ _ => rfl) (fun _ _ => rfl) tree.calls
  rw [ownProblems, List.filter_append, List.filter_append, ofCalls]
  cases tree.missingSources <;> simp [Problem.isVariableFile]

/-- No module has a problem with a variable file unless it is given values. -/
theorem not_isVariableFile_of_loadIn {chain : List Location} {site : ModuleSite}
    (loaded : loadIn files registry chain site = .ok tree) {problem : Problem}
    (member : problem ∈ tree.problems) : ¬problem.isVariableFile = true := by
  intro isVariableFile
  rcases (mem_problems_iff tree).mp member with ⟨name, module, placed, own⟩
  rcases exists_loadIn_of_at? loaded placed with ⟨_, _, inner⟩
  rcases loadIn_eq_ok_iff.mp inner with ⟨content, _, rfl⟩
  have filtered := List.mem_filter.mpr ⟨own, isVariableFile⟩
  rw [filter_isVariableFile_ownProblems] at filtered
  cases filtered

theorem filter_isVariableFile_problems
    (loaded : loadFiles files registry directory paths inputs = .ok tree) :
    tree.problems.filter Problem.isVariableFile =
      (inputs.filesFor files directory).filterMap (problem? files) := by
  rcases loadFiles_eq_ok_iff.mp loaded with ⟨plain, inner, rfl⟩
  have site : plain.site.directory = directory := by rw [(loadedIn_of_loadIn inner).1]
  have ofChildren : ((plain.withInputs files inputs).children.flatMap fun entry =>
      entry.2.problems).filter Problem.isVariableFile = [] := by
    rw [List.filter_eq_nil_iff]
    intro problem member
    rcases List.mem_flatMap.mp member with ⟨entry, isChild, below⟩
    apply not_isVariableFile_of_loadIn inner
    rw [problems_eq]
    exact List.mem_append_right _ (List.mem_flatMap.mpr ⟨entry, isChild, below⟩)
  have ofFiles : ∀ problem ∈ (inputs.filesFor files directory).filterMap (problem? files),
      problem.isVariableFile = true := by
    intro problem member
    rcases List.mem_filterMap.mp member with ⟨path, _, reported⟩
    rw [problem?] at reported
    split at reported <;> cases reported
    rfl
  rw [problems_eq, List.filter_append, ofChildren, filter_isVariableFile_ownProblems,
    variableProblems_eq, site, List.append_nil, List.filter_eq_self.mpr ofFiles]

/-! ## Called modules -/

/-- File sets that give the same module files give the same called modules, whatever values
are given for variables. -/
theorem exists_children_eq (loaded : loadFiles files registry directory paths inputs = .ok tree)
    (same : others.directory = files.directory)
    (alike : ∀ question, Asks files registry [] [files.locate directory] ⟨directory, paths, none⟩
      question → question.AlikeForModules files others) (changed : VariableInputs) :
    ∃ again, loadFiles others registry directory paths changed = .ok again ∧
      again.children = tree.children := by
  rcases loadFiles_eq_ok_iff.mp loaded with ⟨plain, inner, rfl⟩
  have whole : ∀ result : Except Failure ModuleTree, result.map (without []) = result := by
    intro result
    cases result <;> rfl
  have equal := loadIn_without_eq same [] [files.locate directory] ⟨directory, paths, none⟩ alike
  rw [whole, whole, inner, ← locate_eq same] at equal
  exact ⟨_, loadFiles_eq_ok_iff.mpr ⟨plain, equal.symm, rfl⟩, rfl⟩

theorem find?_terms_of_children_eq {again : ModuleTree} (equal : again.children = tree.children)
    {name : FullName} (inner : name.module ≠ []) :
    Table.find? name (Analysis.ofTree again).terms =
      Table.find? name (Analysis.ofTree tree).terms := by
  rw [Analysis.find?_terms, Analysis.find?_terms]
  cases placed : name.module with
  | nil => exact absurd placed inner
  | cons call rest => rw [at?, at?, equal]

/-! ## Values of the variables of a root module -/

/-- What a root module comes to with variable files that apply in an order and with literal
values. -/
structure TakesInputs (files : Files) (registry : Registry) (directory : String)
    (paths : List String) (inputs : VariableInputs) (tree : ModuleTree) (order : List String) :
    Prop where
  /-- The files that are listed apply after those that apply by their name. -/
  inOrder : ∃ found, Found files directory found ∧ order = found ++ inputs.files
  settled : ∀ name fallback, ∃! term, Settles files order inputs.values name fallback term
  visited : ∀ name fallback, (name, fallback) ∈ tree.content.defaults → ∀ term,
    .term ⟨[], ["variable", name]⟩ term ∈ tree.items ↔
      Settles files order inputs.values name fallback term ∨
        ∃ resource ∈ tree.content.resources, resource.path = ["variable", name] ∧
          resource.term = term
  indexed : ∀ name fallback, (name, fallback) ∈ tree.content.defaults →
    (∀ resource ∈ tree.content.resources, resource.path ≠ ["variable", name]) →
    ∃ term, Settles files order inputs.values name fallback term ∧
      Table.find? ⟨[], ["variable", name]⟩ (Analysis.ofTree tree).terms = some term
  /-- Every file that does not load is the cause of one problem, each time that it applies. -/
  reported : tree.problems.filter Problem.isVariableFile = order.filterMap (problem? files)
  /-- What cannot be read, parsed and evaluated as a whole counts for nothing. -/
  unloaded : ∀ before path after, order = before ++ path :: after →
    (¬∃ values, Gives files path values) →
    (∃ message, problem? files path = some (.variableFile path message)) ∧
    ∀ name fallback term, Settles files order inputs.values name fallback term ↔
      Settles files (before ++ after) inputs.values name fallback term
  loaded : ∀ path values, Gives files path values → problem? files path = none
  /-- Called modules come to the same with other variable files and other literal values. -/
  called : ∀ (others : Files) (changed : VariableInputs), others.directory = files.directory →
    (∀ question, Asks files registry [] [files.locate directory] ⟨directory, paths, none⟩
      question → question.AlikeForModules files others) →
    ∃ again, loadFiles others registry directory paths changed = .ok again ∧
      again.children = tree.children ∧
      ∀ name : FullName, name.module ≠ [] →
        Table.find? name (Analysis.ofTree again).terms =
          Table.find? name (Analysis.ofTree tree).terms

/-- The variables of a root module have the literal value, or else that of the last variable
file that loads and defines them, or else the default, and modules that it calls take over
nothing. -/
theorem takesInputs_of_loadFiles (ordered : Table.Ordered files.entries)
    (literals : Table.Ordered inputs.values)
    (loaded : loadFiles files registry directory paths inputs = .ok tree) :
    TakesInputs files registry directory paths inputs tree
      (inputs.filesFor files directory) := by
  rcases loadFiles_eq_ok_iff.mp loaded with ⟨plain, inner, isPlain⟩
  have site : plain.site.directory = directory := by rw [(loadedIn_of_loadIn inner).1]
  rcases loadIn_eq_ok_iff.mp inner with ⟨content, done, plainContent⟩
  have distinct : (Table.keys tree.content.defaults).Nodup := by
    rw [isPlain, plainContent]
    exact (ModuleContent.ordered_defaults done).nodup_keys
  have termOf (name : String) (fallback : Option Expression) (term : Term) :
      Settles files (inputs.filesFor files directory) inputs.values name fallback term ↔
        term = tree.variableTerm name fallback := by
    rw [settles_iff, isPlain, variableTerm_withInputs literals, site]
  refine ⟨?_, ?_, ?_, ?_, ?_, ?_, ?_, ?_⟩
  · exact ⟨_, (found_iff ordered).mpr rfl, rfl⟩
  · intro name fallback
    simp only [settles_iff]
    exact ⟨_, rfl, fun _ same => same⟩
  · intro name fallback declared term
    rw [mem_items_variable_iff distinct declared, termOf]
  · intro name fallback declared noResource
    have declares : tree.content.HasTerm (⟨[], ["variable", name]⟩ : FullName).path :=
      .ofVariable (Table.mem_keys_of_mem declared)
    rcases exists_find?_terms_root rfl declares with ⟨term, found, visited⟩
    refine ⟨term, ?_, found⟩
    rcases (mem_items_variable_iff distinct declared).mp visited with
      same | ⟨resource, member, path, _⟩
    · exact (termOf name fallback term).mpr same
    · exact absurd path (noResource resource member)
  · exact filter_isVariableFile_problems loaded
  · intro before path after split nothing
    rcases exists_load_error nothing with ⟨error, fails⟩
    rw [split, problem?, fails]
    exact ⟨⟨_, rfl⟩, fun name fallback term => settles_append_cons_iff fails⟩
  · intro path values gives
    rw [problem?, load_eq_ok_iff.mpr gives]
  · intro others changed same alike
    rcases exists_children_eq loaded same alike changed with ⟨again, loadedAgain, equal⟩
    exact ⟨again, loadedAgain, equal, fun name inner => find?_terms_of_children_eq equal inner⟩

/-- A module with variable files, one of them broken, that calls a module with another one. -/
def sizedFiles : Files :=
  Files.ofList
    [("/r/main.tf", "variable \"size\" \x7b\ndefault = 0\n\x7d\n" ++
      "variable \"zone\" \x7b\n\x7d\nmodule \"inner\" \x7b\nsource = \"./inner\"\n\x7d\n"),
    ("/r/terraform.tfvars", "size = \"small\"\nzone = \"here\"\n"),
    ("/r/b.auto.tfvars", "size = \"large\"\n"),
    ("/r/a.auto.tfvars", "size = \"medium\"\n"),
    ("/r/c.auto.tfvars.json", "\x7b\"size\": \"huge\""),
    ("/r/inner/main.tf", "variable \"size\" \x7b\n\x7d\n"),
    ("/r/inner/terraform.tfvars", "size = \"inner\"\n")]

def sizedInputs : VariableInputs := ⟨[], [("zone", .string "there")]⟩

theorem takesInputs_sized :
    Table.Ordered sizedFiles.entries ∧ Table.Ordered sizedInputs.values ∧
      ∃ tree, loadFiles sizedFiles [] "/r" ["/r/main.tf"] sizedInputs = .ok tree ∧
        TakesInputs sizedFiles [] "/r" ["/r/main.tf"] sizedInputs tree
          ["/r/terraform.tfvars", "/r/a.auto.tfvars", "/r/b.auto.tfvars",
            "/r/c.auto.tfvars.json"] ∧
        (Table.find? "size" tree.given).bind Value.asString? = some "large" ∧
        (Table.find? "zone" tree.given).bind Value.asString? = some "there" ∧
        tree.problems.filter Problem.isVariableFile =
          [.variableFile "/r/c.auto.tfvars.json" Json.syntaxReport] ∧
        Table.keys tree.children = ["inner"] := by
  have ordered : Table.Ordered sizedFiles.entries := by
    unfold Table.Ordered
    decide +kernel
  have literals : Table.Ordered sizedInputs.values := List.pairwise_singleton _ _
  have order : sizedInputs.filesFor sizedFiles "/r" = ["/r/terraform.tfvars",
      "/r/a.auto.tfvars", "/r/b.auto.tfvars", "/r/c.auto.tfvars.json"] := by decide +kernel
  rcases exists_of_check (loadFiles sizedFiles [] "/r" ["/r/main.tf"] sizedInputs) (fun tree =>
      decide ((Table.find? "size" tree.given).bind Value.asString? = some "large" ∧
        (Table.find? "zone" tree.given).bind Value.asString? = some "there" ∧
        tree.problems.filter Problem.isVariableFile =
          [.variableFile "/r/c.auto.tfvars.json" Json.syntaxReport] ∧
        Table.keys tree.children = ["inner"])) (by decide +kernel) with ⟨tree, loaded, checked⟩
  have takes := takesInputs_of_loadFiles ordered literals loaded
  rw [order] at takes
  exact ⟨ordered, literals, tree, loaded, takes, of_decide_eq_true checked⟩

end ModuleTree

end Groundplan
