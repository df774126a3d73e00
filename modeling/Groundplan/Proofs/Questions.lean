import Groundplan.Proofs.Cycles
/-!
What loading asks. A module is loaded from the answers to the questions that its load asks of
the file set. So what becomes of a call matters to the rest of the tree only through the
answers that the rest asks for itself.
-/

namespace Groundplan

/-- A question to a file set. -/
inductive Question where
  | read (path : String)
  | list (directory : String)

/-- Whether two file sets give the same answer. -/
def Question.Alike (files others : Files) : Question → Prop
  | read path => files.read path = others.read path
  | list directory => files.list directory = others.list directory

/-- Whether two file sets give the same answer as far as it says what modules are made of. -/
def Question.AlikeForModules (files others : Files) : Question → Prop
  | read path => files.read path = others.read path
  | list directory =>
      ModuleSite.primaryFiles files directory = ModuleSite.primaryFiles others directory

theorem Question.Alike.forModules {files others : Files} {question : Question}
    (alike : question.Alike files others) : question.AlikeForModules files others := by
  cases question with
  | read path => exact alike
  | list directory =>
      rw [AlikeForModules, ModuleSite.primaryFiles, ModuleSite.primaryFiles,
        show files.list directory = others.list directory from alike]

namespace CallResult

variable {σ : Type} {τ : Type} {υ : Type}

theorem bind_loaded (result : CallResult τ) : result.bind .loaded = result := by
  cases result <;> rfl

theorem bind_ofLoaded (change : τ → υ) (result : Except Failure τ) :
    (ofLoaded result).bind (fun child => .loaded (change child)) =
      ofLoaded (result.map change) := by
  cases result <;> rfl

theorem bind_bind (next : σ → CallResult τ) (further : τ → CallResult υ)
    (result : CallResult σ) :
    (result.bind next).bind further = result.bind fun target => (next target).bind further := by
  cases result <;> rfl

end CallResult

namespace ModuleTree

variable {files others : Files} {registry : Registry} {chain : List Location} {site : ModuleSite}
  {tree other : ModuleTree} {route : List String}

/-! ## Trees with a call left open -/

/-- A tree without what became of the call at the end of a route. The empty route leaves out
nothing. -/
def without : List String → ModuleTree → ModuleTree
  | [], tree => tree
  | call :: rest, tree =>
      { tree with
        calls := tree.calls.map fun made =>
          if made.1.name ≠ call then made
          else if rest = [] then (made.1, .noSource)
          else (made.1, made.2.bind fun child => .loaded (without rest child)) }

/-- What is left of a route below a call. -/
def routeBelow (route : List String) (call : String) : List String :=
  match route with
  | [] => []
  | first :: rest => if first = call then rest else []

theorem without_eq (route : List String) (tree : ModuleTree) :
    tree.without route =
      { tree with
        calls := tree.calls.map fun made =>
          (made.1,
            if route = [made.1.name] then .noSource
            else made.2.bind fun child =>
              .loaded (child.without (routeBelow route made.1.name))) } := by
  cases route with
  | nil =>
      cases tree
      simp [without, routeBelow, CallResult.bind_loaded]
  | cons call rest =>
      rw [without]
      congr 1
      apply List.map_congr_left
      intro made _
      by_cases named : made.1.name = call
      · subst named
        by_cases last : rest = []
        · simp [last]
        · simp [routeBelow, last]
      · have unnamed : call ≠ made.1.name := Ne.symm named
        simp [named, unnamed, routeBelow, without, CallResult.bind_loaded]

/-! ## Questions of a load -/

/-- Whether a call leads to a directory that is not being loaded already. -/
def Leads (files : Files) (registry : Registry) (chain : List Location) (site : ModuleSite)
    (call : ModuleCall) (directory : String) : Prop :=
  (∃ source, call.source = some source ∧
    ModuleSite.sourceDirectory? registry site.directory source = some directory) ∧
  files.locate directory ∉ chain

/-- The questions that the load of a module asks, apart from those that are only asked for the
call at the end of a route. -/
inductive Asks (files : Files) (registry : Registry) :
    List String → List Location → ModuleSite → Question → Prop where
  | read {route : List String} {chain : List Location} {site : ModuleSite} {path : String}
      (own : path ∈ site.files) : Asks files registry route chain site (.read path)
  | list {route : List String} {chain : List Location} {site : ModuleSite}
      {content : ModuleContent} {call : ModuleCall} {directory : String}
      (done : ModuleContent.read files site.files = .ok content) (made : call ∈ content.calls)
      (seen : route ≠ [call.name]) (leads : Leads files registry chain site call directory) :
      Asks files registry route chain site (.list directory)
  | inside {route : List String} {chain : List Location} {site : ModuleSite}
      {content : ModuleContent} {call : ModuleCall} {directory : String} {paths : List String}
      {question : Question}
      (done : ModuleContent.read files site.files = .ok content) (made : call ∈ content.calls)
      (seen : route ≠ [call.name]) (leads : Leads files registry chain site call directory)
      (listed : ModuleSite.primaryFiles files directory = .ok paths)
      (asked : Asks files registry (routeBelow route call.name)
        (files.locate directory :: chain) ⟨directory, paths, some call.location⟩ question) :
      Asks files registry route chain site question

theorem read_eq_of_alike {paths : List String}
    (alike : ∀ path ∈ paths, files.read path = others.read path) :
    ModuleContent.read files paths = ModuleContent.read others paths := by
  rw [ModuleContent.read_eq, ModuleContent.read_eq]
  generalize ModuleContent.empty = start
  induction paths generalizing start with
  | nil => rfl
  | cons path rest induction =>
      have first : ModuleContent.readFile files start path =
          ModuleContent.readFile others start path := by
        rw [ModuleContent.readFile, ModuleContent.readFile, alike path List.mem_cons_self]
      have further := induction fun other member => alike other (List.mem_cons_of_mem _ member)
      rw [List.foldlM_cons, List.foldlM_cons, first]
      exact congrArg _ (funext further)

theorem locate_eq (same : others.directory = files.directory) (path : String) :
    others.locate path = files.locate path := by
  rw [Files.locate, Files.locate, same]

/-- A call leads to the same in both file sets if its directory has the same module files. -/
theorem callTarget_eq_of_alike (same : others.directory = files.directory) {call : ModuleCall}
    (alike : ∀ directory, Leads files registry chain site call directory →
      ModuleSite.primaryFiles files directory = ModuleSite.primaryFiles others directory) :
    callTarget files registry chain site call = callTarget others registry chain site call := by
  rw [callTarget, callTarget]
  cases given : call.source with
  | none => rfl
  | some source =>
      cases leads : ModuleSite.sourceDirectory? registry site.directory source with
      | none => simp only [leads]
      | some directory =>
          simp only [leads, locate_eq same]
          split
          · rfl
          · next unknown =>
              have fresh : files.locate directory ∉ chain := by simpa using unknown
              rw [alike directory ⟨⟨source, given, leads⟩, fresh⟩]

/-- What became of a call is the same, up to a route below it, if the modules that it leads to
are. -/
theorem callResult_without_eq (same : others.directory = files.directory) {call : ModuleCall}
    (targets : callTarget files registry chain site call =
      callTarget others registry chain site call)
    (inner : ∀ target, callTarget files registry chain site call = .loaded target →
      (loadIn files registry (files.locate target.directory :: chain) target).map
          (without route) =
        (loadIn others registry (files.locate target.directory :: chain) target).map
          (without route)) :
    (callResult files registry chain site call).bind
        (fun child => .loaded (child.without route)) =
      (callResult others registry chain site call).bind
        fun child => .loaded (child.without route) := by
  rw [callResult, callResult, CallResult.bind_bind, CallResult.bind_bind, ← targets]
  cases led : callTarget files registry chain site call with
  | loaded target =>
      rw [CallResult.bind, CallResult.bind, CallResult.bind_ofLoaded, CallResult.bind_ofLoaded,
        locate_eq same]
      exact congrArg CallResult.ofLoaded (inner target led)
  | _ => rfl

/-- Two file sets that answer the questions of a load alike give the same module, up to the
call at the end of the route. -/
theorem loadIn_without_eq (same : others.directory = files.directory) (route : List String)
    (chain : List Location) (site : ModuleSite)
    (alike : ∀ question, Asks files registry route chain site question →
      question.AlikeForModules files others) :
    (loadIn files registry chain site).map (without route) =
      (loadIn others registry chain site).map (without route) := by
  -- On the number of places that loading can still go down into.
  induction bound : (files.places.filter fun place => !chain.contains place).length
    using Nat.strongRecOn generalizing route chain site with
  | ind bound induction =>
      have contents : ModuleContent.read files site.files =
          ModuleContent.read others site.files :=
        read_eq_of_alike fun path own => alike _ (.read own)
      rw [loadIn_eq, loadIn_eq, ← contents]
      cases done : ModuleContent.read files site.files with
      | error failure => rfl
      | ok content =>
          simp only [Except.map, without_eq route]
          congr 2
          rw [List.map_map, List.map_map]
          apply List.map_congr_left
          intro call made
          by_cases left : route = [call.name]
          · simp [left]
          · simp only [Function.comp_apply, left, if_false]
            congr 1
            refine callResult_without_eq same (callTarget_eq_of_alike same
              fun directory leads => alike _ (.list done made left leads)) ?_
            rintro ⟨directory, paths, location⟩ led
            rcases callTarget_eq_loaded_iff.mp led with ⟨given, fresh, listed, located⟩
            cases located
            have fewer := remaining_lt (listed_mem_places listed) (by simpa using fresh)
            refine induction _ (bound ▸ fewer) _ _ _ (fun question asked => ?_) rfl
            exact alike question (.inside done made left ⟨given, fresh⟩ listed asked)

/-! ## Loading a root module -/

section Root

variable {directory : String} {inputs : VariableInputs}

/-- The questions that the load of a root module asks, apart from those that are only asked
for the call at the end of a route. -/
inductive AsksAtRoot (files : Files) (registry : Registry) (directory : String)
    (inputs : VariableInputs) (route : List String) : Question → Prop where
  | list : AsksAtRoot files registry directory inputs route (.list directory)
  | values {path : String} (applies : path ∈ inputs.filesFor files directory) :
      AsksAtRoot files registry directory inputs route (.read path)
  | modules {paths : List String} {question : Question}
      (listed : ModuleSite.primaryFiles files directory = .ok paths)
      (asked : Asks files registry route [files.locate directory] ⟨directory, paths, none⟩
        question) : AsksAtRoot files registry directory inputs route question

theorem withInputs_without (files : Files) (inputs : VariableInputs) (route : List String)
    (tree : ModuleTree) :
    (tree.withInputs files inputs).without route =
      (tree.without route).withInputs files inputs := by
  rw [without_eq, without_eq]
  rfl

/-- Variable files that are found and read alike give the same values. -/
theorem withInputs_eq_of_alike
    (listed : files.list tree.site.directory = others.list tree.site.directory)
    (alike : ∀ path ∈ inputs.filesFor files tree.site.directory,
      files.read path = others.read path) :
    tree.withInputs files inputs = tree.withInputs others inputs := by
  have found : inputs.filesFor files tree.site.directory =
      inputs.filesFor others tree.site.directory := by
    rw [VariableInputs.filesFor, VariableInputs.filesFor, VariableFile.find, VariableFile.find,
      listed]
  have applied : (inputs.filesFor files tree.site.directory).foldl
        (VariableInputs.applyFile files) ([], []) =
      (inputs.filesFor files tree.site.directory).foldl
        (VariableInputs.applyFile others) ([], []) := by
    apply List.foldl_ext
    intro taken path applies
    rw [VariableInputs.applyFile, VariableInputs.applyFile, VariableFile.load, VariableFile.load,
      alike path applies]
  rw [withInputs, withInputs, ← found, applied]

theorem map_without_loadFiles (files : Files) (paths : List String) (inputs : VariableInputs) :
    (loadFiles files registry directory paths inputs).map (without route) =
      ((loadIn files registry [files.locate directory] ⟨directory, paths, none⟩).map
        (without route)).map fun tree => tree.withInputs files inputs := by
  rw [loadFiles]
  cases loadIn files registry [files.locate directory] ⟨directory, paths, none⟩ with
  | error failure => rfl
  | ok plain => exact congrArg Except.ok (withInputs_without files inputs route plain)

/-- Two file sets that answer the questions of a load alike give the same tree, up to the call
at the end of the route. -/
theorem load_without_eq (same : others.directory = files.directory)
    (alike : ∀ question, AsksAtRoot files registry directory inputs route question →
      question.Alike files others) :
    (load files registry directory inputs).map (without route) =
      (load others registry directory inputs).map (without route) := by
  have listing : files.list directory = others.list directory := alike _ .list
  have moduleFiles : ModuleSite.primaryFiles files directory =
      ModuleSite.primaryFiles others directory := (alike _ .list).forModules
  rw [load, load, ← moduleFiles]
  cases listed : ModuleSite.primaryFiles files directory with
  | error failure => rfl
  | ok paths =>
      change (loadFiles files registry directory paths inputs).map (without route) =
        (loadFiles others registry directory paths inputs).map (without route)
      rw [map_without_loadFiles, map_without_loadFiles, locate_eq same,
        ← loadIn_without_eq same route [files.locate directory] ⟨directory, paths, none⟩
          fun question asked => (alike question (.modules listed asked)).forModules]
      cases inner : loadIn files registry [files.locate directory] ⟨directory, paths, none⟩ with
      | error failure => rfl
      | ok plain =>
          have site : (plain.without route).site.directory = directory := by
            rw [without_eq, (loadedIn_of_loadIn inner).1]
          exact congrArg Except.ok (withInputs_eq_of_alike (site ▸ listing) fun path applies =>
            alike _ (.values (site ▸ applies)))

end Root

end ModuleTree

end Groundplan
