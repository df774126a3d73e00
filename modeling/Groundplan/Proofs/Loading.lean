import Groundplan.Proofs.Modules
/-!
Loading. What becomes of a call follows from the call, the site of its module and the
locations that led there, and every module of a loaded tree was itself loaded so.
-/

namespace Groundplan

namespace ModuleContent

/-- Add a file to the content of the files before it. -/
def readFile (files : Files) (content : ModuleContent) (path : String) :
    Except Failure ModuleContent :=
  match files.read path with
  | .error error => .error (.unreadable error)
  | .ok text =>
      match Body.read? text with
      | none => .error (.problem (.parse path Body.syntaxReport))
      | some body => .ok (content.addFile ⟨path, text⟩ body)

theorem read_eq (files : Files) (paths : List String) :
    read files paths = paths.foldlM (readFile files) .empty := rfl

theorem readFile_eq_ok_iff {files : Files} {start content : ModuleContent} {path : String} :
    readFile files start path = .ok content ↔ ∃ text body, files.read path = .ok text ∧
      Body.read? text = some body ∧ content = start.addFile ⟨path, text⟩ body := by
  rw [readFile]
  cases files.read path with
  | error error => simp
  | ok text =>
      cases parsed : Body.read? text with
      | none => simp [parsed]
      | some body => simp [parsed, eq_comm]

theorem foldlM_cons_eq_ok_iff {files : Files} {start content : ModuleContent} {path : String}
    {rest : List String} : (path :: rest).foldlM (readFile files) start = .ok content ↔
      ∃ middle, readFile files start path = .ok middle ∧
        rest.foldlM (readFile files) middle = .ok content := by
  rw [List.foldlM_cons]
  cases readFile files start path with
  | error failure => simp [bind, Except.bind]
  | ok middle => simp [bind, Except.bind]

/-- What holds of no content and is kept by every block of the files holds of all contents that
are read from them. -/
theorem of_read_blocks (holds : ModuleContent → Prop) (empty : holds .empty) {files : Files}
    {paths : List String}
    (kept : ∀ path text file content block, path ∈ paths → files.read path = .ok text →
      Body.read? text = some file → block ∈ file.blocks → holds content →
      holds (addBlock ⟨path, text⟩ file content block))
    {content : ModuleContent} (done : read files paths = .ok content) : holds content := by
  have keptByFile : ∀ path text (body : Body) content, path ∈ paths → files.read path = .ok text →
      Body.read? text = some body → holds content → holds (addFile content ⟨path, text⟩ body) := by
    intro path text body content listed reads parsed start
    have keptByBlocks : ∀ (blocks : List Block) content, (∀ block ∈ blocks, block ∈ body.blocks) →
        holds content → holds (blocks.foldl (addBlock ⟨path, text⟩ body) content) := by
      intro blocks
      induction blocks with
      | nil => exact fun content _ start => start
      | cons block rest induction =>
          intro content inFile start
          apply induction _ fun other member => inFile other (List.mem_cons_of_mem _ member)
          exact kept path text body content block listed reads parsed
            (inFile block List.mem_cons_self) start
    exact keptByBlocks body.blocks content (fun block member => member) start
  rw [read_eq] at done
  clear kept
  generalize ModuleContent.empty = start at empty done
  induction paths generalizing start with
  | nil =>
      cases done
      exact empty
  | cons path rest induction =>
      rcases foldlM_cons_eq_ok_iff.mp done with ⟨middle, first, others⟩
      rcases readFile_eq_ok_iff.mp first with ⟨text, body, reads, parsed, rfl⟩
      refine induction (fun other text body content listed =>
        keptByFile other text body content (List.mem_cons_of_mem _ listed)) _ ?_ others
      exact keptByFile path text body start List.mem_cons_self reads parsed empty

/-- What holds of no content and is kept by every block holds of all contents that are read. -/
theorem of_read (holds : ModuleContent → Prop) (empty : holds .empty)
    (kept : ∀ source file content block, holds content → holds (addBlock source file content block))
    {files : Files} {paths : List String} {content : ModuleContent}
    (done : read files paths = .ok content) : holds content :=
  of_read_blocks holds empty (fun _ _ file content block _ _ _ _ => kept _ file content block) done

/-- Whether a resource is declared by a block. -/
def IsDeclared (resource : Resource) : Prop :=
  ∃ isData resourceType label body block,
    resource = .ofBody isData resourceType label body block

theorem isDeclared_of_read {files : Files} {paths : List String} {content : ModuleContent}
    (done : read files paths = .ok content) : ∀ resource ∈ content.resources,
      IsDeclared resource := by
  refine of_read (fun content => ∀ resource ∈ content.resources, IsDeclared resource)
    (fun resource member => absurd member List.not_mem_nil) ?_ done
  intro source file content block start
  have added : ∀ isData resourceType label located, ∀ resource ∈ content.resources ++
      [Resource.ofBody isData resourceType label block.body located], IsDeclared resource := by
    intro isData resourceType label located resource member
    rcases List.mem_append.mp member with member | member
    · exact start resource member
    · exact ⟨_, _, _, _, _, List.mem_singleton.mp member⟩
  unfold addBlock
  dsimp only
  split
  case h_3 => exact added _ _ _ _
  case h_4 => exact added _ _ _ _
  case h_5 => split <;> exact start
  all_goals exact start

end ModuleContent

namespace CallResult

variable {σ : Type} {τ : Type}

/-- What became of a call whose module was to be loaded. -/
def ofLoaded : Except Failure τ → CallResult τ
  | .error failure => .failed failure
  | .ok child => .loaded child

/-- Go on where a call leads to something; what failed before stays as it is. -/
def bind (next : σ → CallResult τ) : CallResult σ → CallResult τ
  | noSource => noSource
  | notInstalled source => notInstalled source
  | cyclic directory => cyclic directory
  | failed failure => failed failure
  | loaded target => next target

theorem bind_eq_loaded_iff {next : σ → CallResult τ} {result : CallResult σ} {child : τ} :
    result.bind next = .loaded child ↔
      ∃ target, result = .loaded target ∧ next target = .loaded child := by
  cases result <;> simp [bind]

def loaded? : CallResult τ → Option τ
  | loaded child => some child
  | _ => none

theorem loaded?_bind (next : σ → CallResult τ) (result : CallResult σ) :
    (result.bind next).loaded? = result.loaded?.bind fun target => (next target).loaded? := by
  cases result <;> rfl

theorem loaded?_ofLoaded (result : Except Failure τ) :
    (ofLoaded result).loaded? = result.toOption := by
  cases result <;> rfl

theorem ofLoaded_eq_loaded_iff {result : Except Failure τ} {child : τ} :
    ofLoaded result = .loaded child ↔ result = .ok child := by
  cases result <;> simp [ofLoaded]

end CallResult

namespace ModuleTree

variable {files : Files} {registry : Registry} {chain : List Location} {site : ModuleSite}
  {tree : ModuleTree} {call : ModuleCall}

/-- The site that a call of the module at a site leads to, unless it leads nowhere. -/
def callTarget (files : Files) (registry : Registry) (chain : List Location) (site : ModuleSite)
    (call : ModuleCall) : CallResult ModuleSite :=
  match call.source with
  | none => .noSource
  | some source =>
      match ModuleSite.sourceDirectory? registry site.directory source with
      | none => .notInstalled source
      | some directory =>
          if chain.contains (files.locate directory) then .cyclic directory
          else
            match ModuleSite.primaryFiles files directory with
            | .error failure => .failed failure
            | .ok paths => .loaded ⟨directory, paths, some call.location⟩

/-- What becomes of a call of the module at a site. -/
def callResult (files : Files) (registry : Registry) (chain : List Location) (site : ModuleSite)
    (call : ModuleCall) : CallResult ModuleTree :=
  (callTarget files registry chain site call).bind fun target =>
    .ofLoaded (loadIn files registry (files.locate target.directory :: chain) target)

theorem loadIn_eq : loadIn files registry chain site =
    (ModuleContent.read files site.files).map fun content =>
      { site, content, given := [], variableProblems := []
        calls := content.calls.map fun call =>
          (call, callResult files registry chain site call) } := by
  rw [loadIn]
  cases ModuleContent.read files site.files with
  | error failure => rfl
  | ok content =>
      dsimp only [Except.map]
      congr 2
      apply List.map_congr_left
      intro call _
      rw [callResult, callTarget]
      congr 1
      cases call.source with
      | none => rfl
      | some source =>
          dsimp only
          cases ModuleSite.sourceDirectory? registry site.directory source with
          | none => rfl
          | some directory =>
              dsimp only
              split
              · rfl
              · split
                · next listed => rw [listed]; rfl
                · next paths listed =>
                    rw [listed]
                    dsimp only [CallResult.bind]
                    cases loadIn files registry (files.locate directory :: chain)
                      ⟨directory, paths, some call.location⟩ <;> rfl

theorem loadIn_eq_ok_iff : loadIn files registry chain site = .ok tree ↔
    ∃ content, ModuleContent.read files site.files = .ok content ∧
      tree = ⟨site, content, content.calls.map fun call =>
        (call, callResult files registry chain site call), [], []⟩ := by
  rw [loadIn_eq]
  cases ModuleContent.read files site.files with
  | error failure => simp [Except.map]
  | ok content => simp [Except.map, eq_comm]

/-- Loading a module fails exactly if its own files cannot be read, whatever it calls. -/
theorem loadIn_eq_error_iff {failure : Failure} :
    loadIn files registry chain site = .error failure ↔
      ModuleContent.read files site.files = .error failure := by
  rw [loadIn_eq]
  cases ModuleContent.read files site.files with
  | error failure => simp [Except.map]
  | ok content => simp [Except.map]

/-- A call leads to a directory that can be listed and is not being loaded yet. -/
theorem callTarget_eq_loaded_iff {target : ModuleSite} :
    callTarget files registry chain site call = .loaded target ↔
      (∃ source, call.source = some source ∧
        ModuleSite.sourceDirectory? registry site.directory source = some target.directory) ∧
      files.locate target.directory ∉ chain ∧
      ModuleSite.primaryFiles files target.directory = .ok target.files ∧
      target.location = some call.location := by
  rcases target with ⟨directory, paths, location⟩
  rw [callTarget]
  cases call.source with
  | none => simp
  | some source =>
      simp only [Option.some.injEq, exists_eq_left']
      cases ModuleSite.sourceDirectory? registry site.directory source with
      | none => simp
      | some found =>
          dsimp only
          split
          · next known =>
              refine ⟨fun same => (by cases same), ?_⟩
              rintro ⟨same, fresh, _⟩
              cases same
              exact absurd (List.contains_iff_mem.mp known) fresh
          · next fresh =>
              split
              · next failure listed =>
                  refine ⟨fun same => (by cases same), ?_⟩
                  rintro ⟨same, _, given, _⟩
                  cases same
                  cases listed.symm.trans given
              · next found listed =>
                  constructor
                  · intro same
                    cases same
                    exact ⟨rfl, by simpa using fresh, listed, rfl⟩
                  · rintro ⟨same, _, given, located⟩
                    cases same
                    cases listed.symm.trans given
                    cases located
                    rfl

/-- What can become of a call, and why. -/
inductive Becomes (files : Files) (registry : Registry) (chain : List Location)
    (site : ModuleSite) (call : ModuleCall) : CallResult ModuleTree → Prop where
  | noSource (absent : call.source = none) : Becomes files registry chain site call .noSource
  | notInstalled {source : String} (given : call.source = some source)
      (nowhere : ModuleSite.sourceDirectory? registry site.directory source = none) :
      Becomes files registry chain site call (.notInstalled source)
  | cyclic {source directory : String} (given : call.source = some source)
      (leads : ModuleSite.sourceDirectory? registry site.directory source = some directory)
      (known : files.locate directory ∈ chain) :
      Becomes files registry chain site call (.cyclic directory)
  | unlisted {source directory : String} {failure : Failure} (given : call.source = some source)
      (leads : ModuleSite.sourceDirectory? registry site.directory source = some directory)
      (fresh : files.locate directory ∉ chain)
      (listed : ModuleSite.primaryFiles files directory = .error failure) :
      Becomes files registry chain site call (.failed failure)
  | unread {source directory : String} {paths : List String} {failure : Failure}
      (given : call.source = some source)
      (leads : ModuleSite.sourceDirectory? registry site.directory source = some directory)
      (fresh : files.locate directory ∉ chain)
      (listed : ModuleSite.primaryFiles files directory = .ok paths)
      (broken : ModuleContent.read files paths = .error failure) :
      Becomes files registry chain site call (.failed failure)
  | loaded {source directory : String} {paths : List String} {child : ModuleTree}
      (given : call.source = some source)
      (leads : ModuleSite.sourceDirectory? registry site.directory source = some directory)
      (fresh : files.locate directory ∉ chain)
      (listed : ModuleSite.primaryFiles files directory = .ok paths)
      (inner : loadIn files registry (files.locate directory :: chain)
        ⟨directory, paths, some call.location⟩ = .ok child) :
      Becomes files registry chain site call (.loaded child)

theorem becomes_callResult (files : Files) (registry : Registry) (chain : List Location)
    (site : ModuleSite) (call : ModuleCall) :
    Becomes files registry chain site call (callResult files registry chain site call) := by
  rw [callResult, callTarget]
  split
  · next absent => exact .noSource absent
  · next source given =>
      split
      · next nowhere => exact .notInstalled given nowhere
      · next directory leads =>
          split
          · next known => exact .cyclic given leads (List.contains_iff_mem.mp known)
          · next unknown =>
              have fresh : files.locate directory ∉ chain := by simpa using unknown
              split
              · next failure listed => exact .unlisted given leads fresh listed
              · next paths listed =>
                  rw [CallResult.bind]
                  cases inner : loadIn files registry (files.locate directory :: chain)
                      ⟨directory, paths, some call.location⟩ with
                  | error failure =>
                      exact .unread given leads fresh listed (loadIn_eq_error_iff.mp inner)
                  | ok child => exact .loaded given leads fresh listed inner

theorem exists_of_callResult_loaded {child : ModuleTree}
    (loaded : callResult files registry chain site call = .loaded child) :
    ∃ target, callTarget files registry chain site call = .loaded target ∧
      loadIn files registry (files.locate target.directory :: chain) target = .ok child := by
  rcases CallResult.bind_eq_loaded_iff.mp loaded with ⟨target, led, inner⟩
  exact ⟨target, led, CallResult.ofLoaded_eq_loaded_iff.mp inner⟩

/-- Every module of a loaded tree was loaded, with the locations that led to it. -/
theorem exists_loadIn_of_at? (loaded : loadIn files registry chain site = .ok tree)
    {name : ModuleName} {module : ModuleTree} (placed : tree.at? name = some module) :
    ∃ chain site, loadIn files registry chain site = .ok module := by
  induction name generalizing chain site tree with
  | nil =>
      cases placed
      exact ⟨chain, site, loaded⟩
  | cons call rest induction =>
      rcases Option.bind_eq_some_iff.mp placed with ⟨child, found, below⟩
      have member := Table.mem_of_mem_ofList (Table.mem_of_find? found)
      rcases List.mem_filterMap.mp member with ⟨⟨made, result⟩, listed, taken⟩
      rcases loadIn_eq_ok_iff.mp loaded with ⟨content, _, same⟩
      subst same
      rcases List.mem_map.mp listed with ⟨_, _, same⟩
      cases result with
      | loaded child =>
          cases taken
          rcases exists_of_callResult_loaded (congrArg Prod.snd same) with ⟨_, _, inner⟩
          exact induction inner below
      | _ => cases taken

theorem at?_withInputs (files : Files) (inputs : VariableInputs) (tree : ModuleTree)
    (name : ModuleName) :
    (tree.withInputs files inputs).at? name =
      if name = [] then some (tree.withInputs files inputs) else tree.at? name := by
  cases name with
  | nil => rfl
  | cons call rest => rfl

section Root

variable {directory : String} {paths : List String} {inputs : VariableInputs}

theorem loadFiles_eq_ok_iff : loadFiles files registry directory paths inputs = .ok tree ↔
    ∃ plain, loadIn files registry [files.locate directory] ⟨directory, paths, none⟩ = .ok plain ∧
      tree = plain.withInputs files inputs := by
  rw [loadFiles]
  cases loadIn files registry [files.locate directory] ⟨directory, paths, none⟩ with
  | error failure => simp [bind, Except.bind]
  | ok plain => simp [bind, Except.bind, pure, Except.pure, eq_comm]

/-- The content of every module of a tree was read from its files. -/
theorem read_of_at? (loaded : loadFiles files registry directory paths inputs = .ok tree)
    {name : ModuleName} {module : ModuleTree} (placed : tree.at? name = some module) :
    ModuleContent.read files module.site.files = .ok module.content := by
  rcases loadFiles_eq_ok_iff.mp loaded with ⟨plain, inner, rfl⟩
  rw [at?_withInputs] at placed
  have read (module : ModuleTree) (placed : plain.at? name = some module) :
      ModuleContent.read files module.site.files = .ok module.content := by
    rcases exists_loadIn_of_at? inner placed with ⟨_, site, loaded⟩
    rcases loadIn_eq_ok_iff.mp loaded with ⟨content, done, rfl⟩
    exact done
  split at placed
  · next isRoot =>
      cases placed
      subst isRoot
      exact read plain rfl
  · exact read module placed

theorem exists_read_of_at? (loaded : loadFiles files registry directory paths inputs = .ok tree)
    {name : ModuleName} {module : ModuleTree} (placed : tree.at? name = some module) :
    ∃ paths, ModuleContent.read files paths = .ok module.content :=
  ⟨_, read_of_at? loaded placed⟩

theorem loadFiles_eq_error_iff {failure : Failure} :
    loadFiles files registry directory paths inputs = .error failure ↔
      ModuleContent.read files paths = .error failure := by
  rw [loadFiles]
  cases inner : loadIn files registry [files.locate directory] ⟨directory, paths, none⟩ with
  | error other =>
      rw [loadIn_eq_error_iff] at inner
      simp [bind, Except.bind, inner]
  | ok plain =>
      rcases loadIn_eq_ok_iff.mp inner with ⟨content, done, _⟩
      simp [bind, Except.bind, pure, Except.pure, done]

/-- Loading fails exactly if the files of the root module cannot be listed or read. -/
theorem load_eq_error_iff {failure : Failure} :
    load files registry directory inputs = .error failure ↔
      ModuleSite.primaryFiles files directory = .error failure ∨
        ∃ paths, ModuleSite.primaryFiles files directory = .ok paths ∧
          ModuleContent.read files paths = .error failure := by
  rw [load]
  cases ModuleSite.primaryFiles files directory with
  | error failure => simp [bind, Except.bind]
  | ok paths => simpa [bind, Except.bind] using loadFiles_eq_error_iff

theorem exists_loadFiles_of_load (loaded : load files registry directory inputs = .ok tree) :
    ∃ paths, ModuleSite.primaryFiles files directory = .ok paths ∧
      loadFiles files registry directory paths inputs = .ok tree := by
  rw [load] at loaded
  cases listed : ModuleSite.primaryFiles files directory with
  | error failure => simp [listed, bind, Except.bind] at loaded
  | ok paths =>
      rw [listed] at loaded
      exact ⟨paths, rfl, loaded⟩

end Root

end ModuleTree

end Groundplan
