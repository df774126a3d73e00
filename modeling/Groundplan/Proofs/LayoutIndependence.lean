import Groundplan.Evaluation.Records
import Groundplan.Proofs.Rearrangements
/-!
Layout independence. Into which files of the root directory its blocks are written, and in
which order, changes nothing in what an evaluation tells, if no block repeats another.
-/

namespace Groundplan

namespace Analysis

open ModuleTree

/-! ## Analyses that an evaluation cannot tell apart -/

def plainResources (analysis : Analysis) : NameTable ResourceDetails :=
  analysis.resources.map fun entry => (entry.1, entry.2.plain)

/-- Whether analyses share all that an evaluation reads of them. -/
structure Alike (left right : Analysis) : Prop where
  terms : left.terms = right.terms
  dependencies : left.dependencies = right.dependencies
  resources : left.plainResources = right.plainResources
  modulePaths : ∀ name ∈ Table.keys left.terms,
    EvaluationState.modulePath left name.module = EvaluationState.modulePath right name.module

private theorem bind_find? {module : Option ModuleTree} {κ : Type} {α : Type} [Ord κ]
    (table : ModuleTree → Table κ α) (key : κ) :
    (module.bind fun module => Table.find? key (table module)) =
      Table.find? key ((module.map table).getD []) := by
  cases module <;> rfl

section Trees

variable {left right : ModuleTree}
  (same : ∀ name, SameModule (left.at? name) (right.at? name))

include same

theorem terms_eq : (ofTree left).terms = (ofTree right).terms := by
  refine (Table.ordered_ofList _).ext (Table.ordered_ofList _) fun name => ?_
  have inLeft := find?_terms left name
  have inRight := find?_terms right name
  rw [bind_find? fun module => module.ownTerms name.module] at inLeft inRight
  rw [← (same name.module).terms name.module] at inRight
  exact inLeft.trans inRight.symm

theorem plainResources_eq : (ofTree left).plainResources = (ofTree right).plainResources := by
  have ordered (tree : ModuleTree) : Table.Ordered (ofTree tree).plainResources :=
    List.pairwise_map.mpr (Table.ordered_ofList _)
  have found (tree : ModuleTree) (name : FullName) :
      Table.find? name (ofTree tree).plainResources =
        Table.find? name (((tree.at? name.module).map fun module =>
          module.ownResources name.module).getD []) := by
    rw [plainResources, Table.find?_map fun _ => ResourceDetails.plain, find?_resources,
      ← bind_find? fun module => module.ownResources name.module, Option.map_bind]
    refine Option.bind_congr fun module _ => ?_
    rw [Function.comp_apply, Option.map_map, ownResources,
      Table.find?_map fun _ resource => (module.content.details resource).plain]
    rfl
  refine (ordered left).ext (ordered right) fun name => ?_
  rw [found left, found right, (same name.module).resources]

theorem modulePath_eq {name : FullName} (member : name ∈ Table.keys (ofTree left).terms) :
    EvaluationState.modulePath (ofTree left) name.module =
      EvaluationState.modulePath (ofTree right) name.module := by
  have inRight := member
  rw [terms_eq same] at inRight
  rcases mem_names_iff.mp member with ⟨first, inLeft, _⟩
  rcases mem_names_iff.mp inRight with ⟨second, inRight, _⟩
  have roots := (same []).directories left rfl right rfl
  have directories := (same name.module).directories first inLeft second inRight
  simp only [EvaluationState.modulePath, find?_modules, at?_nil, inLeft, inRight,
    Option.map_some, ModuleTree.details, roots, directories]

theorem alike_ofTree : (ofTree left).Alike (ofTree right) where
  terms := terms_eq same
  dependencies := by
    rw [ofTree_dependencies, ofTree_dependencies, terms_eq same]
  resources := plainResources_eq same
  modulePaths _ member := modulePath_eq same member

end Trees

section Alike

variable {left right : Analysis}

theorem Alike.schedule_eq (alike : left.Alike right) : left.schedule = right.schedule := by
  have keys : left.termOfKey? = right.termOfKey? := by
    funext key
    rw [termOfKey?, termOfKey?, alike.dependencies]
  rw [schedule, schedule, graph, graph, alike.dependencies, keys]

theorem Alike.missingTerms_eq (alike : left.Alike right) :
    left.missingTerms = right.missingTerms := by
  rw [missingTerms, missingTerms, alike.dependencies]

end Alike

end Analysis

/-! ## Evaluations -/

namespace EvaluationState

variable {left right : Analysis}

theorem step_eq (alike : left.Alike right) (phantom : PhantomAttributes) (evaluator : Evaluator) :
    step left phantom evaluator = step right phantom evaluator := by
  funext state name
  rw [step, step, alike.terms]
  cases found : Table.find? name right.terms with
  | none => rfl
  | some term =>
      have member : name ∈ Table.keys left.terms := by
        rw [alike.terms]
        exact Table.mem_keys_iff_find?.mpr ⟨term, found⟩
      have scopes : state.scope left name = state.scope right name := by
        rw [scope, scope, Analysis.dependenciesFor, Analysis.dependenciesFor, alike.dependencies,
          context, context, alike.modulePaths name member]
      dsimp only
      rw [scopes]

end EvaluationState

namespace Evaluation

/-- What an evaluation tells about the declared things, wherever they are written. -/
structure Results where
  order : List FullName
  badKeys : List String
  /-- The values of terms by printed name. -/
  values : Table String Value
  modules : Table ModuleName Value
  missingTerms : List String
  records : List ResourceRecord

def results (evaluation : Evaluation) : Results where
  order := evaluation.schedule.order
  badKeys := evaluation.schedule.badKeys
  values := evaluation.state.values
  modules := evaluation.state.trees
  missingTerms := evaluation.analysis.missingTerms
  records := evaluation.records

theorem records_eq (evaluation : Evaluation) :
    evaluation.records = evaluation.analysis.plainResources.flatMap fun entry =>
      evaluation.recordsOf entry.1 entry.2 := by
  rw [records, Analysis.plainResources, List.flatMap_map]
  rfl

theorem results_ofAnalysis {left right : Analysis} (alike : left.Alike right)
    (evaluator : Evaluator) :
    (ofAnalysis evaluator left).map results = (ofAnalysis evaluator right).map results := by
  rw [ofAnalysis, ofAnalysis, alike.schedule_eq]
  cases right.schedule with
  | error nodes => rfl
  | ok schedule =>
      dsimp only [Except.map]
      rw [results, results, records_eq, records_eq]
      dsimp only
      rw [alike.missingTerms_eq, alike.resources, alike.terms,
        EvaluationState.step_eq alike]
      rfl

theorem load_eq (files : Files) (root : String) (inputs : VariableInputs) :
    load files root inputs =
      (ModuleTree.load files (Registry.load files root).1 root inputs).bind fun tree =>
        ofAnalysis Expression.evaluateIn (Analysis.ofTree tree) := by
  rw [load, loadWithWarnings]
  dsimp only
  cases ModuleTree.load files (Registry.load files root).1 root inputs <;> rfl

/-! ## Layouts of a root directory -/

/-- The blocks at the top of the files of a root module, file by file, if all of the files
can be read. -/
def rootBlocks? (files : Files) (root : String) : Option (List Block) :=
  (ModuleSite.primaryFiles files root).toOption.bind (ModuleContent.blocksOf? files)

theorem exists_load_of_rootBlocks? {files : Files} {root : String} {blocks : List Block}
    (laidOut : rootBlocks? files root = some blocks) (registry : Registry)
    (inputs : VariableInputs) : ∃ paths tree,
      ModuleTree.load files registry root inputs = .ok tree ∧
      ModuleTree.loadFiles files registry root paths inputs = .ok tree ∧
      tree.content.Declares (blocks.filterMap Declaration.ofBlock) := by
  rcases Option.bind_eq_some_iff.mp laidOut with ⟨paths, listed, laidOut⟩
  rcases ModuleContent.exists_declares laidOut with ⟨content, done, declares⟩
  let site : ModuleSite := ⟨root, paths, none⟩
  have inner := ModuleTree.loadIn_of_read registry [files.locate root]
    (show ModuleContent.read files site.files = .ok content from done)
  have loaded : ModuleTree.loadFiles files registry root paths inputs = .ok _ :=
    ModuleTree.loadFiles_eq_ok_iff.mpr ⟨_, inner, rfl⟩
  refine ⟨paths, _, ?_, loaded, declares⟩
  rw [ModuleTree.load]
  cases found : ModuleSite.primaryFiles files root with
  | error failure => simp [found, Except.toOption] at listed
  | ok primary =>
      rw [found] at listed
      cases listed
      exact loaded

/-- Two file sets with the same blocks in the root directory and all else alike are evaluated
to the same results, or fail alike. -/
theorem results_independent_of_layout {left right : Files} {root : String}
    {inputs : VariableInputs} (same : Files.SameBut (left.locate root) left right)
    (explicit : ∀ file ∈ inputs.files,
      (VariableFile.load left file).toOption = (VariableFile.load right file).toOption)
    {first second : List Block} (inLeft : rootBlocks? left root = some first)
    (inRight : rootBlocks? right root = some second)
    (rearranged : (first.map Block.plain).Perm (second.map Block.plain))
    (distinct : Declaration.Distinct (first.filterMap Declaration.ofBlock))
    (distinctCalls : left.medium = .disk → ∀ tree,
      ModuleTree.load left (Registry.load left root).1 root inputs = .ok tree →
        tree.CallsDistinct) :
    (load left root inputs).map results = (load right root inputs).map results := by
  have registries := same.registry rfl
  rcases exists_load_of_rootBlocks? inLeft (Registry.load left root).1 inputs with
    ⟨leftPaths, leftTree, leftLoads, leftLoaded, leftDeclares⟩
  rcases exists_load_of_rootBlocks? inRight (Registry.load left root).1 inputs with
    ⟨rightPaths, rightTree, rightLoads, rightLoaded, rightDeclares⟩
  have declared : (first.filterMap Declaration.ofBlock).Perm
      (second.filterMap Declaration.ofBlock) := by
    have plain (blocks : List Block) : (blocks.map Block.plain).filterMap Declaration.ofBlock =
        blocks.filterMap Declaration.ofBlock := by
      rw [List.filterMap_map]
      exact List.filterMap_congr fun block _ => Declaration.ofBlock_plain block
    rw [← plain first, ← plain second]
    exact rearranged.filterMap _
  -- All that the root module shows of its files is what the blocks in them declare.
  have reordered := ModuleContent.reordered_of_perm leftDeclares rightDeclares declared distinct
  have modules := ModuleTree.sameModule_of_loadFiles same explicit leftLoaded rightLoaded reordered
    fun onDisk => distinctCalls onDisk leftTree leftLoads
  rw [load_eq, load_eq, ← registries, leftLoads, rightLoads]
  exact results_ofAnalysis (Analysis.alike_ofTree modules) Expression.evaluateIn

def localsText : String := "locals \x7b\nn = \"d\"\n\x7d\n"

def callText : String := "module \"m\" \x7b\nsource = \"./m\"\nt = local.n\n\x7d\n"

def calledText : String := "resource \"a\" \"y\" \x7b\nv = var.t\n\x7d\n"

/-- A module in two files, and the module that it calls. -/
def orderedFiles : Files :=
  Files.ofList [("/r/main.tf", localsText), ("/r/rest.tf", callText), ("/r/m/main.tf", calledText)]

/-- The same module with its blocks the other way round, in files of other names. -/
def turnedFiles : Files :=
  Files.ofList [("/r/a.tf", callText), ("/r/b.tf", localsText), ("/r/m/main.tf", calledText)]

private theorem sameBut_turnedFiles :
    Files.SameBut (orderedFiles.locate "/r") orderedFiles turnedFiles where
  medium := by decide
  start := by decide
  standing := by decide
  others := by decide
  inLeft := by decide
  inRight := by decide
  plainLeft := Files.namesPlain_ofList _
  plainRight := Files.namesPlain_ofList _

theorem results_independent_of_layout_turned : ∃ first second,
    rootBlocks? orderedFiles "/r" = some (first ++ second) ∧
    rootBlocks? turnedFiles "/r" = some (second ++ first) ∧
    ((first ++ second).map Block.plain).Perm ((second ++ first).map Block.plain) ∧
    Declaration.Distinct ((first ++ second).filterMap Declaration.ofBlock) ∧
    Files.SameBut (orderedFiles.locate "/r") orderedFiles turnedFiles ∧
    (load orderedFiles "/r" .empty).map results = (load turnedFiles "/r" .empty).map results ∧
    (load orderedFiles "/r" .empty).toOption.map (fun evaluation => evaluation.records.length) =
      some 1 := by
  have listed : (ModuleSite.primaryFiles orderedFiles "/r").toOption =
      some ["/r/main.tf", "/r/rest.tf"] := by decide
  have turned : (ModuleSite.primaryFiles turnedFiles "/r").toOption =
      some ["/r/a.tf", "/r/b.tf"] := by decide
  have readMain : (orderedFiles.read "/r/main.tf").toOption = some localsText := by decide
  have readRest : (orderedFiles.read "/r/rest.tf").toOption = some callText := by decide
  have readFirst : (turnedFiles.read "/r/a.tf").toOption = some callText := by decide
  have readLast : (turnedFiles.read "/r/b.tf").toOption = some localsText := by decide
  have parsed : ((Body.read? localsText).any fun locals => (Body.read? callText).any fun call =>
      decide (Declaration.Distinct
        ((locals.blocks ++ call.blocks).filterMap Declaration.ofBlock))) = true := by
    decide +kernel
  rcases (Option.any_eq_true _ _).mp parsed with ⟨locals, parsedLocals, parsed⟩
  rcases (Option.any_eq_true _ _).mp parsed with ⟨call, parsedCall, distinct⟩
  have inLeft : rootBlocks? orderedFiles "/r" = some (locals.blocks ++ call.blocks) := by
    simp [rootBlocks?, listed, ModuleContent.blocksOf?, readMain, readRest, parsedLocals,
      parsedCall]
  have inRight : rootBlocks? turnedFiles "/r" = some (call.blocks ++ locals.blocks) := by
    simp [rootBlocks?, turned, ModuleContent.blocksOf?, readFirst, readLast, parsedLocals,
      parsedCall]
  have rearranged : ((locals.blocks ++ call.blocks).map Block.plain).Perm
      ((call.blocks ++ locals.blocks).map Block.plain) :=
    List.perm_append_comm.map _
  have distinct := of_decide_eq_true distinct
  refine ⟨_, _, inLeft, inRight, rearranged, distinct, sameBut_turnedFiles, ?_,
    by decide +kernel⟩
  refine results_independent_of_layout sameBut_turnedFiles ?_ inLeft inRight rearranged distinct ?_
  · intro file member
    cases member
  · intro onDisk
    cases onDisk

end Evaluation

end Groundplan
