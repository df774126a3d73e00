import Groundplan.Proofs.Declarations
import Groundplan.Proofs.Layouts
/-!
Rearrangements. Module trees that are loaded from file sets which differ only in the layout
of the root module have the same terms and resources in every module.
-/

namespace Groundplan

def ResourceDetails.plain (details : ResourceDetails) : ResourceDetails :=
  { details with block := .nowhere }

namespace ModuleTree

/-! ## Modules that say the same -/

def ownResources (tree : ModuleTree) (name : ModuleName) : NameTable ResourceDetails :=
  (tree.content.resourceTable name).map fun entry => (entry.1, (tree.content.details entry.2).plain)

/-- Whether modules have the same terms and resources. A module that is not there is like one
that declares nothing. -/
structure SameModule (left right : Option ModuleTree) : Prop where
  terms : ∀ name, (left.map fun module => module.ownTerms name).getD [] =
    (right.map fun module => module.ownTerms name).getD []
  resources : ∀ name, (left.map fun module => module.ownResources name).getD [] =
    (right.map fun module => module.ownResources name).getD []
  directories : ∀ first ∈ left, ∀ second ∈ right, first.site.directory = second.site.directory

theorem SameModule.symm {left right : Option ModuleTree} (same : SameModule left right) :
    SameModule right left where
  terms name := (same.terms name).symm
  resources name := (same.resources name).symm
  directories second inRight first inLeft := (same.directories first inLeft second inRight).symm

theorem SameModule.refl (module : Option ModuleTree) : SameModule module module where
  terms _ := rfl
  resources _ := rfl
  directories first inLeft second inRight := by
    cases inLeft.symm.trans inRight
    rfl

/-- Modules of one content say the same. -/
theorem sameModule_of_content {left right : ModuleTree} (content : left.content = right.content)
    (given : left.given = right.given) (directory : left.site.directory = right.site.directory) :
    SameModule (some left) (some right) where
  terms name := by
    simp only [Option.map_some, Option.getD_some, ownTerms, filterMap_term?_ownItems, content,
      variableTerm, given]
  resources name := by
    simp only [Option.map_some, Option.getD_some, ownResources, content]
  directories _ inLeft _ inRight := by
    cases inLeft
    cases inRight
    exact directory

/-- A module that declares nothing. -/
def bare (site : ModuleSite) : ModuleTree := ⟨site, .empty, [], [], []⟩

theorem sameModule_bare (site : ModuleSite) : SameModule (some (bare site)) none where
  terms name := by
    simp [ownTerms, filterMap_term?_ownItems, bare, ModuleContent.empty, Table.ofList]
  resources name := by
    simp [ownResources, ModuleContent.resourceTable, bare, ModuleContent.empty, Table.ofList]
  directories _ _ _ inRight := by cases inRight

/-! ## Reordered contents -/

def resourceEntries (name : ModuleName) (content : ModuleContent) : List (FullName × Term) :=
  content.resources.map fun resource => (⟨name, resource.path⟩, resource.term)

def inputEntries (name : ModuleName) (content : ModuleContent) : List (FullName × Term) :=
  content.calls.flatMap fun call => call.arguments.map fun argument =>
    (⟨name, ["input", call.name, argument.1]⟩, inputTerm call argument.2)

section Reordered

variable {left right : ModuleTree}

theorem nodup_names_of_paths {resources : List Resource}
    (nodup : (resources.map Resource.path).Nodup) (name : ModuleName) :
    ((resources.map Resource.plain).map fun resource =>
      (⟨name, resource.path⟩ : FullName)).Nodup := by
  rw [List.map_map]
  exact List.pairwise_map.mpr ((List.pairwise_map.mp nodup).imp fun different same =>
    different (congrArg FullName.path same))

theorem ofList_resourceEntries (reordered : left.content.Reordered right.content)
    (name : ModuleName) : Table.ofList (resourceEntries name left.content) =
      Table.ofList (resourceEntries name right.content) := by
  have plain (content : ModuleContent) : resourceEntries name content =
      (content.resources.map Resource.plain).map fun resource =>
        (⟨name, resource.path⟩, resource.term) := by
    rw [resourceEntries, List.map_map]
    rfl
  rw [plain left.content, plain right.content]
  exact Table.ofList_map_perm reordered.resources (nodup_names_of_paths reordered.paths name) _

theorem ofList_inputEntries (reordered : left.content.Reordered right.content)
    (name : ModuleName) : Table.ofList (inputEntries name left.content) =
      Table.ofList (inputEntries name right.content) := by
  have plain (content : ModuleContent) : inputEntries name content =
      (content.calls.map ModuleCall.plain).flatMap fun call => call.arguments.map fun argument =>
        (⟨name, ["input", call.name, argument.1]⟩, inputTerm call argument.2) := by
    rw [inputEntries, List.flatMap_map]
    rfl
  rw [plain left.content, plain right.content]
  refine Table.ofList_flatMap_perm reordered.calls ?_
  refine List.pairwise_map.mpr ((List.pairwise_map.mp reordered.names).imp ?_)
  intro one other different entry isEntry item isItem same
  rcases List.mem_map.mp isEntry with ⟨argument, _, rfl⟩
  rcases List.mem_map.mp isItem with ⟨second, _, rfl⟩
  simp only [FullName.mk.injEq, List.cons.injEq, true_and] at same
  exact different same.1

theorem ownTerms_of_reordered (reordered : left.content.Reordered right.content)
    (given : left.given = right.given) (name : ModuleName) :
    left.ownTerms name = right.ownTerms name := by
  have parts (tree : ModuleTree) : tree.ownTerms name = Table.ofList
      ((tree.content.defaults.map fun entry =>
        (⟨name, ["variable", entry.1]⟩, tree.variableTerm entry.1 entry.2)) ++
      (tree.content.locals.map fun entry =>
        (⟨name, ["local", entry.1]⟩, .ofExpression entry.2)) ++
      resourceEntries name tree.content ++
      (tree.content.outputs.map fun entry =>
        (⟨name, ["output", entry.1]⟩, .ofExpression entry.2)) ++
      (tree.content.providers.map fun entry => (FullName.providerConfig name entry.1, entry.2)) ++
      inputEntries name tree.content) := by
    rw [ownTerms, filterMap_term?_ownItems]
    rfl
  rw [parts left, parts right]
  refine (Table.ordered_ofList _).ext (Table.ordered_ofList _) fun key => ?_
  simp only [Table.find?_ofList_append, reordered.defaults, reordered.locals, reordered.outputs,
    reordered.providers, ofList_resourceEntries reordered, ofList_inputEntries reordered,
    variableTerm, given]

theorem ownResources_of_reordered (reordered : left.content.Reordered right.content)
    (name : ModuleName) : left.ownResources name = right.ownResources name := by
  have plain (tree : ModuleTree) : tree.ownResources name =
      Table.ofList ((tree.content.resources.map Resource.plain).map fun resource =>
        (⟨name, resource.path⟩, (tree.content.details resource).plain)) := by
    have mapped := Table.ofList_map (fun _ resource => (tree.content.details resource).plain)
      (tree.content.resources.map fun resource => ((⟨name, resource.path⟩ : FullName), resource))
    rw [List.map_map] at mapped
    rw [ownResources, ModuleContent.resourceTable, ← mapped, List.map_map]
    rfl
  have details : ∀ resource, (left.content.details resource).plain =
      (right.content.details resource).plain := by
    intro resource
    simp only [ModuleContent.details, reordered.requiredProviders]
  rw [plain left, plain right]
  simp only [details]
  exact Table.ofList_map_perm reordered.resources (nodup_names_of_paths reordered.paths name) _

theorem sameModule_of_reordered (reordered : left.content.Reordered right.content)
    (given : left.given = right.given) (directory : left.site.directory = right.site.directory) :
    SameModule (some left) (some right) where
  terms name := ownTerms_of_reordered reordered given name
  resources name := ownResources_of_reordered reordered name
  directories _ inLeft _ inRight := by
    cases inLeft
    cases inRight
    exact directory

end Reordered

/-! ## Called modules -/

/-- Whether no module of a tree has two calls of one name. -/
def CallsDistinct (tree : ModuleTree) : Prop :=
  ∀ name module, tree.at? name = some module → (module.content.calls.map ModuleCall.name).Nodup

/-- The module that a call of the module at a site leads to. -/
def callModule (files : Files) (registry : Registry) (chain : List Location) (site : ModuleSite)
    (call : ModuleCall) : Option ModuleTree :=
  (callResult files registry chain site call).loaded?

/-- The module that is found under a name, if every call leads to what is given for it. -/
def moduleUnder (leads : ModuleCall → Option ModuleTree) (calls : List ModuleCall)
    (name : String) : Option ModuleTree :=
  Table.find? name (Table.ofList (Table.kept ModuleCall.name leads calls))

section Called

variable {files : Files} {registry : Registry} {chain : List Location} {site : ModuleSite}
  {tree called : ModuleTree} {call : String}

theorem CallsDistinct.child (distinct : tree.CallsDistinct)
    (found : Table.find? call tree.children = some called) : called.CallsDistinct := by
  intro name module placed
  refine distinct (call :: name) module ?_
  rw [at?, found]
  exact placed

theorem callModule_eq (files : Files) (registry : Registry) (chain : List Location)
    (site : ModuleSite) (call : ModuleCall) : callModule files registry chain site call =
      (callTarget files registry chain site call).loaded?.bind fun target =>
        (loadIn files registry (files.locate target.directory :: chain) target).toOption := by
  rw [callModule, callResult, CallResult.loaded?_bind]
  exact Option.bind_congr fun target _ => CallResult.loaded?_ofLoaded _

theorem find?_children_of_loadIn (loaded : loadIn files registry chain site = .ok tree)
    (name : String) : Table.find? name tree.children =
      moduleUnder (callModule files registry chain site) tree.content.calls name := by
  rcases loadIn_eq_ok_iff.mp loaded with ⟨content, _, rfl⟩
  rw [children_eq, loadedCalls, moduleUnder, Table.kept, List.filterMap_map]
  refine congrArg (fun entries => Table.find? name (Table.ofList entries))
    (List.filterMap_congr fun call _ => ?_)
  rw [Function.comp_apply, callModule]
  cases callResult files registry chain site call <;> rfl

theorem loadIn_of_files_eq_nil (empty : site.files = []) :
    loadIn files registry chain site = .ok (bare site) := by
  rw [loadIn_eq, empty]
  rfl

theorem sameModule_bare_at? (site : ModuleSite) (name : ModuleName) :
    SameModule ((some (bare site)).bind fun module => module.at? name) none := by
  cases name with
  | nil => exact sameModule_bare site
  | cons call rest => exact SameModule.refl none

end Called

/-! ## Loading alike -/

/-- How the sites compare that one call leads to in two file sets. -/
inductive TargetsAlike (left right : Files) : Option ModuleSite → Option ModuleSite → Prop where
  | neither : TargetsAlike left right none none
  | both {first second : ModuleSite} (directories : first.directory = second.directory)
      (paths : first.files = second.files)
      (reads : ∀ file ∈ first.files, (left.read file).toOption = (right.read file).toOption) :
      TargetsAlike left right (some first) (some second)
  | onlyFirst {first : ModuleSite} (onDisk : left.medium = .disk) (empty : first.files = []) :
      TargetsAlike left right (some first) none
  | onlySecond {second : ModuleSite} (onDisk : left.medium = .disk) (empty : second.files = []) :
      TargetsAlike left right none (some second)

section Alike

variable {directory : Location} {left right : Files} {registry : Registry}
  {chain : List Location} {first second : ModuleSite}

theorem targetsAlike (registry : Registry) (same : Files.SameBut directory left right)
    (inChain : directory ∈ chain) (directories : first.directory = second.directory)
    {call other : ModuleCall} (sources : call.source = other.source) :
    TargetsAlike left right (callTarget left registry chain first call).loaded?
      (callTarget right registry chain second other).loaded? := by
  rw [callTarget, callTarget, ← sources, ← directories]
  cases call.source with
  | none => exact .neither
  | some source =>
      dsimp only
      cases ModuleSite.sourceDirectory? registry first.directory source with
      | none => exact .neither
      | some path =>
          dsimp only
          rw [← same.locate]
          split
          · exact .neither
          · next fresh =>
              -- The directory itself is being loaded, so the call leads elsewhere.
              have different : left.locate path ≠ directory := by
                rintro rfl
                exact fresh (List.contains_iff_mem.mpr inChain)
              have reads := @Files.SameBut.read_of_mem_primaryFiles _ _ _ _ same different
              have listed := same.list different
              rw [ModuleSite.primaryFiles] at reads
              rw [ModuleSite.primaryFiles, ModuleSite.primaryFiles]
              generalize left.list path = inLeft at listed reads
              generalize right.list path = inRight at listed
              cases listed with
              | neither => exact .neither
              | both names => exact .both rfl rfl (reads rfl)
              | onlyFirst onDisk => exact .onlyFirst onDisk rfl
              | onlySecond onDisk => exact .onlySecond onDisk rfl

theorem read_congr {paths : List String}
    (reads : ∀ file ∈ paths, (left.read file).toOption = (right.read file).toOption) :
    (ModuleContent.read left paths).toOption = (ModuleContent.read right paths).toOption := by
  rw [ModuleContent.read_eq, ModuleContent.read_eq]
  generalize ModuleContent.empty = start
  induction paths generalizing start with
  | nil => rfl
  | cons file rest induction =>
      have step : (ModuleContent.readFile left start file).toOption =
          (ModuleContent.readFile right start file).toOption := by
        have alike := reads file List.mem_cons_self
        rw [ModuleContent.readFile, ModuleContent.readFile]
        cases inLeft : left.read file <;> cases inRight : right.read file <;>
          simp_all [Except.toOption]
      have further := induction fun other member => reads other (List.mem_cons_of_mem _ member)
      rw [List.foldlM_cons, List.foldlM_cons]
      cases inLeft : ModuleContent.readFile left start file <;>
        cases inRight : ModuleContent.readFile right start file <;>
          simp_all [Except.toOption, bind, Except.bind]

theorem loadIn_of_read {files : Files} (registry : Registry) (chain : List Location)
    {site : ModuleSite} {content : ModuleContent}
    (done : ModuleContent.read files site.files = .ok content) :
    loadIn files registry chain site = .ok ⟨site, content, content.calls.map fun call =>
      (call, callResult files registry chain site call), [], []⟩ :=
  loadIn_eq_ok_iff.mpr ⟨content, done, rfl⟩

theorem toOption_loadIn (files : Files) (registry : Registry) (chain : List Location)
    (site : ModuleSite) : (loadIn files registry chain site).toOption =
      (ModuleContent.read files site.files).toOption.map fun content =>
        ⟨site, content, content.calls.map fun call =>
          (call, callResult files registry chain site call), [], []⟩ := by
  rw [loadIn_eq]
  cases ModuleContent.read files site.files <;> rfl

/-- In memory a call leads to a module in both file sets or in none. -/
theorem isSome_callModule {call other : ModuleCall} (targets : TargetsAlike left right
      (callTarget left registry chain first call).loaded?
      (callTarget right registry chain second other).loaded?)
    (inMemory : left.medium = .memory) :
    (callModule left registry chain first call).isSome =
      (callModule right registry chain second other).isSome := by
  rw [callModule_eq, callModule_eq]
  generalize (callTarget left registry chain first call).loaded? = leftTarget at targets
  generalize (callTarget right registry chain second other).loaded? = rightTarget at targets
  cases targets with
  | neither => rfl
  | both directories paths reads =>
      rw [Option.bind_some, Option.bind_some, toOption_loadIn, toOption_loadIn, ← paths,
        read_congr reads, Option.isSome_map, Option.isSome_map]
  | onlyFirst onDisk => simp [inMemory] at onDisk
  | onlySecond onDisk => simp [inMemory] at onDisk

/-- The module below a call is alike in both if it is for every site that both can read. -/
theorem sameModule_callModule {call other : ModuleCall} {name : ModuleName}
    (targets : TargetsAlike left right (callTarget left registry chain first call).loaded?
      (callTarget right registry chain second other).loaded?)
    (both : ∀ target again, (callTarget left registry chain first call).loaded? = some target →
      target.directory = again.directory → target.files = again.files →
      (∀ file ∈ target.files, (left.read file).toOption = (right.read file).toOption) →
      SameModule
        ((loadIn left registry (left.locate target.directory :: chain) target).toOption.bind
          fun module => module.at? name)
        ((loadIn right registry (right.locate again.directory :: chain) again).toOption.bind
          fun module => module.at? name)) :
    SameModule ((callModule left registry chain first call).bind fun module => module.at? name)
      ((callModule right registry chain second other).bind fun module => module.at? name) := by
  rw [callModule_eq, callModule_eq]
  generalize (callTarget left registry chain first call).loaded? = leftTarget at targets both
  generalize (callTarget right registry chain second other).loaded? = rightTarget at targets
  cases targets with
  | neither => exact SameModule.refl none
  | both directories paths reads => exact both _ _ rfl directories paths reads
  | onlyFirst _ empty =>
      rw [Option.bind_some, loadIn_of_files_eq_nil empty]
      exact sameModule_bare_at? _ name
  | onlySecond _ empty =>
      rw [Option.bind_some, loadIn_of_files_eq_nil empty]
      exact (sameModule_bare_at? _ name).symm

private theorem findSome?_cases {calls : List ModuleCall}
    {leads again : ModuleCall → Option ModuleTree}
    (alike : ∀ call ∈ calls, (leads call).isSome = (again call).isSome) (name : String) :
    let latest (leads : ModuleCall → Option ModuleTree) :=
      calls.findSome? fun call => if call.name = name then leads call else none
    (latest leads = none ∧ latest again = none) ∨
      ∃ call, latest leads = leads call ∧ latest again = again call := by
  intro latest
  induction calls with
  | nil => exact .inl ⟨rfl, rfl⟩
  | cons call rest induction =>
      have later := induction fun other member => alike other (List.mem_cons_of_mem _ member)
      have here := alike call List.mem_cons_self
      dsimp only [latest]
      rw [List.findSome?_cons, List.findSome?_cons]
      by_cases same : call.name = name
      · rw [if_pos same, if_pos same]
        cases inLeft : leads call with
        | none =>
            cases inRight : again call with
            | none => exact later
            | some child => simp [inLeft, inRight] at here
        | some child =>
            cases inRight : again call with
            | none => simp [inLeft, inRight] at here
            | some other => exact .inr ⟨call, inLeft.symm, inRight.symm⟩
      · rw [if_neg same, if_neg same]
        exact later

/-- The call that counts under a name is the same in both. -/
theorem moduleUnder_cases {calls : List ModuleCall} {leads again : ModuleCall → Option ModuleTree}
    (alike : (calls.map ModuleCall.name).Nodup ∨
      ∀ call ∈ calls, (leads call).isSome = (again call).isSome) (name : String) :
    (moduleUnder leads calls name = none ∧ moduleUnder again calls name = none) ∨
      ∃ call, moduleUnder leads calls name = leads call ∧
        moduleUnder again calls name = again call := by
  rw [moduleUnder, moduleUnder]
  rcases alike with nodup | alike
  · rw [Table.find?_ofList_kept_of_nodup nodup, Table.find?_ofList_kept_of_nodup nodup]
    cases Table.find? name (Table.ofList (calls.map fun call => (call.name, call))) with
    | none => exact .inl ⟨rfl, rfl⟩
    | some call => exact .inr ⟨call, rfl, rfl⟩
  · rw [Table.find?_ofList_kept, Table.find?_ofList_kept]
    exact findSome?_cases (fun call member => alike call (List.mem_reverse.mp member)) name

/-- Whether, wherever two file sets load one site while the directory is being loaded, the
modules at the end of a chain of calls are alike. -/
def LoadsAlike (directory : Location) (left right : Files) (registry : Registry)
    (name : ModuleName) : Prop :=
  ∀ ⦃chain : List Location⦄ ⦃first second : ModuleSite⦄, directory ∈ chain →
    first.directory = second.directory → first.files = second.files →
    (∀ file ∈ first.files, (left.read file).toOption = (right.read file).toOption) →
    (left.medium = .disk → ∀ tree, loadIn left registry chain first = .ok tree →
      tree.CallsDistinct) →
    SameModule ((loadIn left registry chain first).toOption.bind fun module => module.at? name)
      ((loadIn right registry chain second).toOption.bind fun module => module.at? name)

/-- Where the same call is found in both, what is below it is alike. -/
theorem LoadsAlike.below {rest : ModuleName} (alike : LoadsAlike directory left right registry rest)
    (same : Files.SameBut directory left right) (inChain : directory ∈ chain)
    (directories : first.directory = second.directory) {leftTree rightTree : ModuleTree}
    {made again : ModuleCall} (sources : made.source = again.source) {call : String}
    (foundLeft : Table.find? call leftTree.children = callModule left registry chain first made)
    (foundRight : Table.find? call rightTree.children =
      callModule right registry chain second again)
    (distinct : left.medium = .disk → leftTree.CallsDistinct) :
    SameModule (leftTree.at? (call :: rest)) (rightTree.at? (call :: rest)) := by
  rw [at?, at?, foundLeft, foundRight]
  have targets := targetsAlike registry same inChain directories sources
  refine sameModule_callModule targets fun target other reached directories paths reads => ?_
  rw [← same.locate, ← directories]
  refine alike (List.mem_cons_of_mem _ inChain) directories paths reads ?_
  intro onDisk tree loaded
  refine (distinct onDisk).child (foundLeft.trans ?_)
  rw [callModule_eq, reached, Option.bind_some, loaded]
  rfl

/-- Modules that are loaded while the root module is being loaded do not depend on its layout. -/
theorem loadsAlike (same : Files.SameBut directory left right) (name : ModuleName) :
    LoadsAlike directory left right registry name := by
  -- Along the chain of calls: what a call leads to is again a site that both can read.
  induction name with
  | nil =>
      intro chain first second inChain directories paths reads distinct
      rw [toOption_loadIn, toOption_loadIn, ← paths, read_congr reads]
      cases (ModuleContent.read right first.files).toOption with
      | none => exact SameModule.refl none
      | some content => exact sameModule_of_content rfl rfl directories
  | cons call rest induction =>
      intro chain first second inChain directories paths reads distinct
      have contents := read_congr reads
      cases inRight : ModuleContent.read right first.files with
      | error failure =>
          rw [inRight, Except.toOption] at contents
          rw [toOption_loadIn, toOption_loadIn, ← paths, contents, inRight]
          exact SameModule.refl none
      | ok content =>
          have inLeft : ModuleContent.read left first.files = .ok content := by
            cases read : ModuleContent.read left first.files <;> simp_all [Except.toOption]
          have leftLoaded := loadIn_of_read registry chain inLeft
          have rightLoaded := loadIn_of_read registry chain (paths ▸ inRight)
          -- On a disk a call can lead to a module in one of them only, and would then hide an
          -- earlier call of its name there.
          have alike : (content.calls.map ModuleCall.name).Nodup ∨ ∀ call ∈ content.calls,
              (callModule left registry chain first call).isSome =
                (callModule right registry chain second call).isSome := by
            cases medium : left.medium with
            | memory => exact .inr fun call _ =>
                isSome_callModule (targetsAlike registry same inChain directories rfl) medium
            | disk => exact .inl (distinct medium _ leftLoaded [] _ rfl)
          have leftChildren := find?_children_of_loadIn leftLoaded call
          have rightChildren := find?_children_of_loadIn rightLoaded call
          rw [leftLoaded, rightLoaded]
          dsimp only [Except.toOption, Option.bind_some]
          rcases moduleUnder_cases alike call with ⟨noLeft, noRight⟩ | ⟨made, foundLeft, foundRight⟩
          · rw [at?, at?, leftChildren, rightChildren, noLeft, noRight]
            exact SameModule.refl none
          · exact induction.below same inChain directories rfl (leftChildren.trans foundLeft)
              (rightChildren.trans foundRight) fun onDisk => distinct onDisk _ leftLoaded

/-! ## The root module -/

theorem find?_call_of_reordered {content other : ModuleContent}
    (reordered : content.Reordered other) (name : String) :
    (Table.find? name (Table.ofList (content.calls.map fun call => (call.name, call)))).map
        ModuleCall.plain =
      (Table.find? name (Table.ofList (other.calls.map fun call => (call.name, call)))).map
        ModuleCall.plain := by
  have plain (content : ModuleContent) :
      (content.calls.map fun call => (call.name, call.plain)) =
        (content.calls.map ModuleCall.plain).map fun call => (call.name, call) := by
    rw [List.map_map]
    rfl
  have nodup : ((content.calls.map ModuleCall.plain).map ModuleCall.name).Nodup := by
    rw [List.map_map]
    exact reordered.names
  rw [← Table.find?_ofList_map, ← Table.find?_ofList_map, plain content, plain other]
  exact congrArg (Table.find? name) (Table.ofList_map_perm reordered.calls nodup id)

theorem CallsDistinct.of_withInputs {files : Files} {inputs : VariableInputs} {tree : ModuleTree}
    (distinct : (tree.withInputs files inputs).CallsDistinct) : tree.CallsDistinct := by
  intro name module placed
  cases name with
  | nil =>
      cases placed
      exact distinct [] (tree.withInputs files inputs) rfl
  | cons call rest => exact distinct (call :: rest) module placed

/-- Below a root module it does not matter how its files are laid out. -/
theorem sameModule_below (same : Files.SameBut directory left right) (inChain : directory ∈ chain)
    {leftTree rightTree : ModuleTree}
    (leftLoaded : loadIn left registry chain first = .ok leftTree)
    (rightLoaded : loadIn right registry chain second = .ok rightTree)
    (directories : first.directory = second.directory)
    (reordered : leftTree.content.Reordered rightTree.content)
    (distinct : left.medium = .disk → leftTree.CallsDistinct) (call : String) (rest : ModuleName) :
    SameModule (leftTree.at? (call :: rest)) (rightTree.at? (call :: rest)) := by
  have names : (rightTree.content.calls.map ModuleCall.name).Nodup := by
    have plain := reordered.calls.map ModuleCall.name
    rw [List.map_map, List.map_map] at plain
    exact plain.nodup_iff.mp reordered.names
  have found := find?_call_of_reordered reordered call
  have leftChildren := find?_children_of_loadIn leftLoaded call
  have rightChildren := find?_children_of_loadIn rightLoaded call
  rw [moduleUnder, Table.find?_ofList_kept_of_nodup reordered.names] at leftChildren
  rw [moduleUnder, Table.find?_ofList_kept_of_nodup names] at rightChildren
  cases inLeft : Table.find? call (Table.ofList (leftTree.content.calls.map fun call =>
      (call.name, call))) with
  | none =>
      rw [inLeft, Option.map_none, eq_comm, Option.map_eq_none_iff] at found
      rw [at?, at?, leftChildren, rightChildren, inLeft, found]
      exact SameModule.refl none
  | some made =>
      rw [inLeft, Option.map_some, eq_comm, Option.map_eq_some_iff] at found
      rcases found with ⟨again, inRight, plain⟩
      have sources : made.source = again.source := by
        have plainSources := congrArg ModuleCall.source plain
        exact plainSources.symm
      rw [inLeft, Option.bind_some] at leftChildren
      rw [inRight, Option.bind_some] at rightChildren
      exact (loadsAlike same rest).below same inChain directories sources leftChildren
        rightChildren distinct

/-- The modules of a root directory are the same for every layout of what it declares. -/
theorem sameModule_of_loadFiles {root : String} {leftPaths rightPaths : List String}
    {inputs : VariableInputs} (same : Files.SameBut (left.locate root) left right)
    (explicit : ∀ file ∈ inputs.files,
      (VariableFile.load left file).toOption = (VariableFile.load right file).toOption)
    {leftTree rightTree : ModuleTree}
    (leftLoaded : loadFiles left registry root leftPaths inputs = .ok leftTree)
    (rightLoaded : loadFiles right registry root rightPaths inputs = .ok rightTree)
    (reordered : leftTree.content.Reordered rightTree.content)
    (distinct : left.medium = .disk → leftTree.CallsDistinct) (name : ModuleName) :
    SameModule (leftTree.at? name) (rightTree.at? name) := by
  rcases loadFiles_eq_ok_iff.mp leftLoaded with ⟨leftPlain, inLeft, rfl⟩
  rcases loadFiles_eq_ok_iff.mp rightLoaded with ⟨rightPlain, inRight, rfl⟩
  have leftSite : leftPlain.site = ⟨root, leftPaths, none⟩ := by
    rcases loadIn_eq_ok_iff.mp inLeft with ⟨_, _, rfl⟩
    rfl
  have rightSite : rightPlain.site = ⟨root, rightPaths, none⟩ := by
    rcases loadIn_eq_ok_iff.mp inRight with ⟨_, _, rfl⟩
    rfl
  cases name with
  | nil =>
      refine sameModule_of_reordered reordered ?_ ?_
      · simp only [withInputs, leftSite, rightSite, same.applyFiles rfl explicit]
      · simp only [withInputs, leftSite, rightSite]
  | cons call rest =>
      rw [← same.locate] at inRight
      exact sameModule_below same List.mem_cons_self inLeft inRight rfl reordered
        (fun onDisk => (distinct onDisk).of_withInputs) call rest

end Alike

end ModuleTree

end Groundplan
