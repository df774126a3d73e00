import Groundplan.Proofs.Loading
import Mathlib.Data.List.Dedup
/-!
Cycles of modules. Loading goes down only into directories that are not being loaded
already, so it ends on every file set, and what it refuses are exactly the calls that lead
back to a module above.
-/

namespace Groundplan

namespace Files

variable {files : Files} {place : Location}

/-- The directories of a file set, each one once. -/
def directories (files : Files) : List Location :=
  (files.places.filter files.isDirectoryAt).dedup

theorem mem_directories : place ∈ files.directories ↔ files.isDirectoryAt place = true := by
  rw [directories, List.mem_dedup, List.mem_filter]
  exact ⟨And.right, fun holds => ⟨mem_places_of_isDirectoryAt holds, holds⟩⟩

theorem mem_directories_of_primaryFiles (memory : files.medium = .memory) {directory : String}
    {paths : List String} (listed : ModuleSite.primaryFiles files directory = .ok paths) :
    files.locate directory ∈ files.directories := by
  rw [mem_directories]
  have placed : files.place? directory = .ok (files.locate directory) := by
    rw [place?, memory]
  rw [ModuleSite.primaryFiles, list, placed, memory] at listed
  cases holds : files.isDirectoryAt (files.locate directory) with
  | true => rfl
  | false => simp [holds] at listed

end Files

namespace CallResult

variable {σ : Type} {τ : Type}

/-- Go on where a call leads to something, with a step that may not come to an end. -/
def bind? (next : σ → Option (CallResult τ)) : CallResult σ → Option (CallResult τ)
  | noSource => some noSource
  | notInstalled source => some (notInstalled source)
  | cyclic directory => some (cyclic directory)
  | failed failure => some (failed failure)
  | loaded target => next target

theorem bind?_eq_some {next : σ → Option (CallResult τ)} {total : σ → CallResult τ}
    {result : CallResult σ}
    (ends : ∀ target, result = .loaded target → next target = some (total target)) :
    result.bind? next = some (result.bind total) := by
  cases result with
  | loaded target => exact ends target rfl
  | _ => rfl

theorem ofLoaded_ne_cyclic (result : Except Failure τ) (directory : String) :
    ofLoaded result ≠ .cyclic directory := by
  cases result <;> simp [ofLoaded]

end CallResult

namespace ModuleTree

variable {files : Files} {registry : Registry} {chain : List Location} {site : ModuleSite}
  {tree : ModuleTree}

/-! ## Loading with a bound -/

/-- Load a module and the modules that it calls, to a depth of at most `depth` modules and
without any other reason to come to an end. -/
def loadWithin (files : Files) (registry : Registry) :
    Nat → List Location → ModuleSite → Option (Except Failure ModuleTree)
  | 0, _, _ => none
  | depth + 1, chain, site =>
      match ModuleContent.read files site.files with
      | .error failure => some (.error failure)
      | .ok content =>
          let calls := content.calls.mapM fun call =>
            ((callTarget files registry chain site call).bind? fun target =>
              (loadWithin files registry depth (files.locate target.directory :: chain) target).map
                CallResult.ofLoaded).map fun result => (call, result)
          calls.map fun calls => .ok ⟨site, content, calls, [], []⟩

/-- The directories that loading can still go down into. -/
def remaining (files : Files) (chain : List Location) : List Location :=
  files.directories.filter fun place => !chain.contains place

theorem length_remaining_lt (memory : files.medium = .memory) {call : ModuleCall}
    {target : ModuleSite} (led : callTarget files registry chain site call = .loaded target) :
    (remaining files (files.locate target.directory :: chain)).length <
      (remaining files chain).length := by
  rcases callTarget_eq_loaded_iff.mp led with ⟨_, fresh, listed, _⟩
  exact remaining_lt (Files.mem_directories_of_primaryFiles memory listed) (by simpa using fresh)

/-- A depth beyond the number of remaining directories is never used up. -/
theorem loadWithin_eq (memory : files.medium = .memory) {depth : Nat}
    (enough : (remaining files chain).length < depth) :
    loadWithin files registry depth chain site = some (loadIn files registry chain site) := by
  induction depth generalizing chain site with
  | zero => exact absurd enough (Nat.not_lt_zero _)
  | succ depth induction =>
      rw [loadWithin, loadIn_eq]
      cases ModuleContent.read files site.files with
      | error failure => rfl
      | ok content =>
          have result (call : ModuleCall) : ((callTarget files registry chain site call).bind?
              fun target => (loadWithin files registry depth
                (files.locate target.directory :: chain) target).map CallResult.ofLoaded) =
              some (callResult files registry chain site call) := by
            refine CallResult.bind?_eq_some fun target led => ?_
            have shorter := length_remaining_lt memory led
            rw [induction (by omega), Option.map_some]
          have calls : (content.calls.mapM fun call =>
              some (call, callResult files registry chain site call)) =
              some (content.calls.map fun call =>
                (call, callResult files registry chain site call)) := List.mapM_pure
          simp only [result, Option.map_some, calls]
          rfl

/-! ## Modules and what led to them -/

/-- A module of a tree and the modules above it, from the one that calls it up to the root. -/
inductive Ancestry (root : ModuleTree) : (module : ModuleTree) → (above : List ModuleTree) → Prop
    where
  | root : Ancestry root root []
  | call {module child : ModuleTree} {above : List ModuleTree} {made : ModuleCall}
      (reached : Ancestry root module above) (loaded : (made, .loaded child) ∈ module.calls) :
      Ancestry root child (module :: above)

/-- Where the directories of modules are. -/
def locations (files : Files) (modules : List ModuleTree) : List Location :=
  modules.map fun module => files.locate module.site.directory

theorem exists_call_of_mem_children {call : String} {child : ModuleTree}
    (member : (call, child) ∈ tree.children) :
    ∃ made : ModuleCall, made.name = call ∧ (made, .loaded child) ∈ tree.calls := by
  rcases List.mem_filterMap.mp (Table.mem_of_mem_ofList member) with ⟨⟨made, result⟩, listed, taken⟩
  cases result with
  | loaded loaded =>
      cases taken
      exact ⟨made, rfl, listed⟩
  | _ => cases taken

/-- A module has as many modules above it as its name has calls. -/
theorem exists_ancestry {name : ModuleName} {module : ModuleTree}
    (placed : tree.at? name = some module) :
    ∃ above, Ancestry tree module above ∧ above.length = name.length := by
  have general : ∀ (name : ModuleName) (start : ModuleTree) above, Ancestry tree start above →
      start.at? name = some module → ∃ further, Ancestry tree module further ∧
        further.length = above.length + name.length := by
    intro name
    induction name with
    | nil =>
        intro start above reached placed
        cases placed
        exact ⟨above, reached, rfl⟩
    | cons call rest induction =>
        intro start above reached placed
        rcases Option.bind_eq_some_iff.mp placed with ⟨child, found, below⟩
        rcases exists_call_of_mem_children (Table.mem_of_find? found) with ⟨made, _, listed⟩
        rcases induction child _ (.call reached listed) below with ⟨further, ancestry, length⟩
        refine ⟨further, ancestry, ?_⟩
        simp only [List.length_cons] at length ⊢
        omega
  rcases general name tree [] .root placed with ⟨above, ancestry, length⟩
  exact ⟨above, ancestry, by simpa using length⟩

/-- What loading gave for a module, with the locations that led to it. -/
structure LoadedIn (files : Files) (registry : Registry) (chain : List Location)
    (module : ModuleTree) : Prop where
  calls : module.calls = module.content.calls.map fun call =>
    (call, callResult files registry chain module.site call)
  variableProblems : ∀ problem ∈ module.variableProblems,
    ∃ path text, problem = .variableFile path text

theorem loadedIn_of_loadIn (loaded : loadIn files registry chain site = .ok tree) :
    tree.site = site ∧ LoadedIn files registry chain tree := by
  rcases loadIn_eq_ok_iff.mp loaded with ⟨content, _, rfl⟩
  exact ⟨rfl, rfl, fun problem member => absurd member List.not_mem_nil⟩

/-- What a module records for a call is what became of it. -/
theorem LoadedIn.becomes {module : ModuleTree} {call : ModuleCall} {result : CallResult ModuleTree}
    (loadedIn : LoadedIn files registry chain module) (made : (call, result) ∈ module.calls) :
    call ∈ module.content.calls ∧ Becomes files registry chain module.site call result := by
  rw [loadedIn.calls] at made
  rcases List.mem_map.mp made with ⟨_, listed, same⟩
  cases same
  exact ⟨listed, becomes_callResult files registry chain module.site call⟩

theorem variableProblems_withInputs (inputs : VariableInputs) (tree : ModuleTree) :
    ∀ problem ∈ (tree.withInputs files inputs).variableProblems,
      ∃ path text, problem = .variableFile path text := by
  rw [withInputs]
  dsimp only
  generalize inputs.filesFor files tree.site.directory = paths
  have general : ∀ taken : Table String Value × List Problem,
      (∀ problem ∈ taken.2, ∃ path text, problem = .variableFile path text) →
      ∀ problem ∈ (paths.foldl (VariableInputs.applyFile files) taken).2,
        ∃ path text, problem = .variableFile path text := by
    induction paths with
    | nil => exact fun taken start => start
    | cons path rest induction =>
        intro taken start
        refine induction _ ?_
        rw [VariableInputs.applyFile]
        split
        · exact start
        · intro problem member
          rcases List.mem_append.mp member with member | member
          · exact start problem member
          · exact ⟨_, _, List.mem_singleton.mp member⟩
  exact general _ fun problem member => absurd member List.not_mem_nil

theorem LoadedIn.child {module child : ModuleTree} {call : ModuleCall}
    (loadedIn : LoadedIn files registry chain module)
    (loaded : (call, .loaded child) ∈ module.calls) :
    callTarget files registry chain module.site call = .loaded child.site ∧
      LoadedIn files registry (files.locate child.site.directory :: chain) child := by
  rw [loadedIn.calls] at loaded
  rcases List.mem_map.mp loaded with ⟨_, _, same⟩
  cases congrArg Prod.fst same
  rcases exists_of_callResult_loaded (congrArg Prod.snd same) with ⟨target, led, inner⟩
  rcases loadedIn_of_loadIn inner with ⟨rfl, below⟩
  exact ⟨led, below⟩

theorem callResult_eq_cyclic_iff {call : ModuleCall} {directory : String} :
    callResult files registry chain site call = .cyclic directory ↔
      (∃ source, call.source = some source ∧
        ModuleSite.sourceDirectory? registry site.directory source = some directory) ∧
      files.locate directory ∈ chain := by
  rw [callResult, callTarget]
  cases call.source with
  | none => simp [CallResult.bind]
  | some source =>
      simp only [Option.some.injEq, exists_eq_left']
      cases ModuleSite.sourceDirectory? registry site.directory source with
      | none => simp [CallResult.bind]
      | some found =>
          dsimp only
          split
          · next known =>
              simp only [CallResult.bind, CallResult.cyclic.injEq, Option.some.injEq]
              exact ⟨fun same => ⟨same, same ▸ List.contains_iff_mem.mp known⟩, And.left⟩
          · next fresh =>
              refine iff_of_false ?_ ?_
              · split <;> simp [CallResult.bind, CallResult.ofLoaded_ne_cyclic]
              · rintro ⟨same, known⟩
                cases same
                exact fresh (List.contains_iff_mem.mpr known)

/-- The calls that are refused are those that lead back to a directory being loaded. -/
theorem LoadedIn.moduleCycle_mem_iff {module : ModuleTree}
    (loadedIn : LoadedIn files registry chain module) {name directory : String} :
    .moduleCycle name directory ∈ module.ownProblems ↔
      ∃ call ∈ module.content.calls, call.name = name ∧
        (∃ source, call.source = some source ∧
          ModuleSite.sourceDirectory? registry module.site.directory source = some directory) ∧
        files.locate directory ∈ chain := by
  have others : .moduleCycle name directory ∉ module.variableProblems := by
    intro member
    rcases loadedIn.variableProblems _ member with ⟨_, _, same⟩
    cases same
  have reported (call : ModuleCall) (result : CallResult ModuleTree) :
      result.problem? call = some (.moduleCycle name directory) ↔
        call.name = name ∧ result = .cyclic directory := by
    cases result <;> simp [CallResult.problem?]
  rw [ownProblems, List.mem_append, List.mem_append, or_iff_left others, or_iff_left (by
    split <;> simp), List.mem_filterMap, loadedIn.calls]
  simp only [reported]
  constructor
  · rintro ⟨_, member, named, refused⟩
    rcases List.mem_map.mp member with ⟨call, made, rfl⟩
    rcases callResult_eq_cyclic_iff.mp refused with ⟨led, known⟩
    exact ⟨call, made, named, led, known⟩
  · rintro ⟨call, made, named, led, known⟩
    exact ⟨_, List.mem_map_of_mem made, named, callResult_eq_cyclic_iff.mpr ⟨led, known⟩⟩

/-! ## Problems of a tree -/

/-- Calls are reported as cycles or as failures and as nothing else. -/
theorem filter_callProblems_eq_nil {check : Problem → Bool}
    (noCycle : ∀ name directory, check (.moduleCycle name directory) = false)
    (noFailure : ∀ name message, check (.submoduleLoad name message) = false)
    (calls : List (ModuleCall × CallResult ModuleTree)) :
    (calls.filterMap fun call => call.2.problem? call.1).filter check = [] := by
  rw [List.filter_eq_nil_iff]
  intro problem member
  rcases List.mem_filterMap.mp member with ⟨⟨call, result⟩, _, reported⟩
  cases result <;> cases reported <;> simp [noCycle, noFailure]

theorem childProblems_eq (calls : List (ModuleCall × CallResult ModuleTree)) :
    childProblems calls = (loadedCalls calls).map fun entry => (entry.1, entry.2.problems) := by
  induction calls with
  | nil => rfl
  | cons first rest induction =>
      rcases first with ⟨call, result⟩
      cases result with
      | loaded child =>
          rw [childProblems, induction]
          rfl
      | _ => exact induction

theorem problems_eq (tree : ModuleTree) :
    tree.problems = tree.ownProblems ++ tree.children.flatMap fun entry => entry.2.problems := by
  have listed := Table.ofList_map (fun (_ : String) child => problems child)
    (loadedCalls tree.calls)
  rcases tree with ⟨site, content, calls, given, variableProblems⟩
  rw [problems, childProblems_eq, listed, Table.values, List.map_map, children_eq,
    List.flatMap_def]
  rfl

/-- The problems of a tree are those of its modules. -/
theorem mem_problems_iff (tree : ModuleTree) {problem : Problem} :
    problem ∈ tree.problems ↔
      ∃ name module, tree.at? name = some module ∧ problem ∈ module.ownProblems := by
  rw [problems_eq, List.mem_append, List.mem_flatMap]
  constructor
  · rintro (own | ⟨⟨call, child⟩, isChild, below⟩)
    · exact ⟨[], tree, rfl, own⟩
    · have := sizeOf_lt_of_mem_children isChild
      rcases (mem_problems_iff child).mp below with ⟨name, module, placed, own⟩
      have found := (Table.ordered_ofList _).find?_eq_some_iff.mpr isChild
      exact ⟨call :: name, module, Option.bind_eq_some_iff.mpr ⟨child, found, placed⟩, own⟩
  · rintro ⟨name, module, placed, own⟩
    cases name with
    | nil =>
        cases placed
        exact .inl own
    | cons call rest =>
        rcases Option.bind_eq_some_iff.mp placed with ⟨child, found, placed⟩
        have isChild := Table.mem_of_find? found
        have := sizeOf_lt_of_mem_children isChild
        exact .inr ⟨_, isChild, (mem_problems_iff child).mpr ⟨rest, module, placed, own⟩⟩
termination_by sizeOf tree

section Loaded

variable {directory : String} {paths : List String} {inputs : VariableInputs}
  (loaded : loadFiles files registry directory paths inputs = .ok tree)
  {module : ModuleTree} {above : List ModuleTree}
include loaded

theorem loadedIn_root : LoadedIn files registry (locations files [tree]) tree := by
  rcases loadFiles_eq_ok_iff.mp loaded with ⟨plain, inner, rfl⟩
  rcases loadedIn_of_loadIn inner with ⟨site, loadedIn⟩
  have here : locations files [plain.withInputs files inputs] = [files.locate directory] := by
    have same : (plain.withInputs files inputs).site = plain.site := rfl
    rw [locations, List.map_cons, same, site]
    rfl
  rw [here]
  exact ⟨loadedIn.calls, variableProblems_withInputs inputs plain⟩

theorem Ancestry.loadedIn (ancestry : Ancestry tree module above) :
    LoadedIn files registry (locations files (module :: above)) module := by
  induction ancestry with
  | root => exact loadedIn_root loaded
  | call _ made induction => exact (induction.child made).2

theorem Ancestry.nodup_locations (ancestry : Ancestry tree module above) :
    (locations files (module :: above)).Nodup := by
  induction ancestry with
  | root => exact List.pairwise_singleton _ _
  | call reached made induction =>
      have led := ((reached.loadedIn loaded).child made).1
      exact List.nodup_cons.mpr ⟨(callTarget_eq_loaded_iff.mp led).2.1, induction⟩

/-- All modules but the root are in directories of the file set. -/
theorem Ancestry.mem_directories (memory : files.medium = .memory)
    (ancestry : Ancestry tree module above) :
    ∀ place ∈ (locations files (module :: above)).dropLast, place ∈ files.directories := by
  induction ancestry with
  | root => exact fun place member => absurd member List.not_mem_nil
  | @call module child above made reached listed induction =>
      have led := ((reached.loadedIn loaded).child listed).1
      intro place member
      rcases List.mem_cons.mp (show place ∈ files.locate child.site.directory ::
        (locations files (module :: above)).dropLast from member) with rfl | member
      · exact Files.mem_directories_of_primaryFiles memory (callTarget_eq_loaded_iff.mp led).2.2.1
      · exact induction place member

theorem Ancestry.length_le (memory : files.medium = .memory)
    (ancestry : Ancestry tree module above) : above.length ≤ files.directories.length := by
  have distinct := (ancestry.nodup_locations loaded).sublist (List.dropLast_sublist _)
  have bound := distinct.length_le_of_subset (ancestry.mem_directories loaded memory)
  simpa [locations] using bound

end Loaded

/-- Loading from memory ends, whatever the modules call: the recursion never goes deeper than
one module more than there are directories. In a loaded tree no directory stands twice on the
way from the root to a module, and the calls that are reported as cycles are exactly those
that lead back to a directory on that way. -/
theorem loading_ends (memory : files.medium = .memory) (registry : Registry) (directory : String)
    (paths : List String) (inputs : VariableInputs) :
    (∀ depth, files.directories.length < depth →
      loadWithin files registry depth [files.locate directory] ⟨directory, paths, none⟩ =
        some (loadIn files registry [files.locate directory] ⟨directory, paths, none⟩)) ∧
    ∀ tree, loadFiles files registry directory paths inputs = .ok tree →
      (∀ name module, tree.at? name = some module →
        ∃ above, Ancestry tree module above ∧ above.length = name.length) ∧
      (∀ module above, Ancestry tree module above →
        (locations files (module :: above)).Nodup ∧
        (module :: above).length ≤ 1 + files.directories.length ∧
        ∀ name target, .moduleCycle name target ∈ module.ownProblems ↔
          ∃ call ∈ module.content.calls, call.name = name ∧
            (∃ source, call.source = some source ∧
              ModuleSite.sourceDirectory? registry module.site.directory source = some target) ∧
            files.locate target ∈ locations files (module :: above)) ∧
      ∀ problem, problem ∈ tree.problems ↔
        ∃ name module, tree.at? name = some module ∧ problem ∈ module.ownProblems := by
  refine ⟨fun depth enough => ?_, fun tree loaded => ⟨?_, ?_, ?_⟩⟩
  · refine loadWithin_eq memory (Nat.lt_of_le_of_lt ?_ enough)
    exact List.length_filter_le _ _
  · intro name module placed
    exact exists_ancestry placed
  · intro module above ancestry
    refine ⟨ancestry.nodup_locations loaded, ?_, fun name target => ?_⟩
    · have bound := ancestry.length_le loaded memory
      rw [List.length_cons]
      omega
    · exact (ancestry.loadedIn loaded).moduleCycle_mem_iff
  · intro problem
    exact mem_problems_iff tree

/-- Two modules that call each other, by paths that grow on every round. -/
def loopFiles : Files :=
  Files.ofList [("/r/main.tf", "module \"m\" \x7b\nsource = \"./n\"\n\x7d\n"),
    ("/r/n/main.tf", "module \"m\" \x7b\nsource = \"../n/..\"\n\x7d\n")]

theorem loading_ends_loop : loopFiles.medium = .memory ∧
    loadWithin loopFiles [] 4 [loopFiles.locate "/r"] ⟨"/r", ["/r/main.tf"], none⟩ =
      some (loadIn loopFiles [] [loopFiles.locate "/r"] ⟨"/r", ["/r/main.tf"], none⟩) ∧
    ∃ tree module above, loadFiles loopFiles [] "/r" ["/r/main.tf"] .empty = .ok tree ∧
      Ancestry tree module above ∧ above.length = 1 ∧
      (locations loopFiles (module :: above)).Nodup ∧
      .moduleCycle "m" "/r/./n/../n/.." ∈ module.ownProblems ∧
      loopFiles.locate "/r/./n/../n/.." ∈ locations loopFiles (module :: above) := by
  have ends := loading_ends (show loopFiles.medium = .memory from rfl) [] "/r" ["/r/main.tf"] .empty
  refine ⟨rfl, ends.1 4 (by decide +kernel), ?_⟩
  have checked : (loadFiles loopFiles [] "/r" ["/r/main.tf"] .empty).toOption.any (fun tree =>
      (tree.at? ["m"]).any fun module =>
        decide (.moduleCycle "m" "/r/./n/../n/.." ∈ module.ownProblems)) = true := by
    decide +kernel
  rcases (Option.any_eq_true _ _).mp checked with ⟨tree, given, checked⟩
  rcases (Option.any_eq_true _ _).mp checked with ⟨module, placed, reported⟩
  have loaded : loadFiles loopFiles [] "/r" ["/r/main.tf"] .empty = .ok tree := by
    cases loaded : loadFiles loopFiles [] "/r" ["/r/main.tf"] .empty with
    | error failure => simp [loaded, Except.toOption] at given
    | ok tree => simpa [loaded, Except.toOption] using given
  rcases ends.2 tree loaded with ⟨reaches, each, _⟩
  rcases reaches ["m"] module placed with ⟨above, ancestry, length⟩
  rcases each module above ancestry with ⟨distinct, _, cycles⟩
  rcases (cycles _ _).mp (of_decide_eq_true reported) with ⟨_, _, _, _, known⟩
  exact ⟨tree, module, above, loaded, ancestry, length, distinct, of_decide_eq_true reported, known⟩

end ModuleTree

end Groundplan
