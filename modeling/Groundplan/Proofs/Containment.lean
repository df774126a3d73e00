import Groundplan.Proofs.Questions
/-!
Containment of load faults. Only the root module can end a load. Everything that goes wrong
with a called module is recorded once, at its call, and the rest of the tree is as it would be
if that call had gone well.
-/

namespace Groundplan

namespace Problem

/-- The name of the call that a problem is about. -/
def call? : Problem → Option String
  | submoduleLoad name _ => some name
  | moduleCycle name _ => some name
  | _ => none

def isMissingRemote : Problem → Bool
  | missingRemoteSubmodules _ _ => true
  | _ => false

end Problem

/-- Whether a file can be read and parsed. -/
def Files.Parses (files : Files) (path : String) : Prop :=
  ∃ text body, files.read path = .ok text ∧ Body.read? text = some body

theorem ModuleContent.exists_read_iff {files : Files} {paths : List String} :
    (∃ content, read files paths = .ok content) ↔ ∀ path ∈ paths, files.Parses path := by
  rw [read_eq]
  generalize ModuleContent.empty = start
  induction paths generalizing start with
  | nil => simp [pure, Except.pure]
  | cons path rest induction =>
      simp only [foldlM_cons_eq_ok_iff, List.forall_mem_cons]
      constructor
      · rintro ⟨content, middle, first, others⟩
        rcases readFile_eq_ok_iff.mp first with ⟨text, body, given, parsed, _⟩
        exact ⟨⟨text, body, given, parsed⟩, (induction middle).mp ⟨content, others⟩⟩
      · rintro ⟨⟨text, body, given, parsed⟩, others⟩
        rcases (induction (start.addFile ⟨path, text⟩ body)).mpr others with ⟨content, done⟩
        exact ⟨content, _, readFile_eq_ok_iff.mpr ⟨text, body, given, parsed, rfl⟩, done⟩

namespace ModuleTree

variable {files others : Files} {registry : Registry} {chain : List Location}
  {tree other module : ModuleTree} {call : ModuleCall} {source : String}

/-! ## What ends a load -/

theorem exists_error_iff {α : Type} {result : Except Failure α} :
    (∃ failure, result = .error failure) ↔ ¬∃ value, result = .ok value := by
  cases result <;> simp

/-- A load ends without a tree exactly if the root directory cannot be listed, or a primary
file in it cannot be read or parsed. -/
theorem exists_load_error_iff {directory : String} {inputs : VariableInputs} :
    (∃ failure, load files registry directory inputs = .error failure) ↔
      (∃ error, files.list directory = .error error) ∨
        ∃ paths path, ModuleSite.primaryFiles files directory = .ok paths ∧ path ∈ paths ∧
          ¬files.Parses path := by
  simp only [load_eq_error_iff]
  cases listed : files.list directory with
  | error error => simp [ModuleSite.primaryFiles, listed]
  | ok names =>
      have unread : (∃ failure, ModuleContent.read files
          ((names.filter ModuleSite.isPrimary).map (Path.join directory)) = .error failure) ↔
          ∃ path ∈ (names.filter ModuleSite.isPrimary).map (Path.join directory),
            ¬files.Parses path := by
        rw [exists_error_iff, ModuleContent.exists_read_iff]
        simp only [not_forall, exists_prop]
      simpa [ModuleSite.primaryFiles, listed] using unread

/-! ## What is recorded of a call -/

/-- Whether exactly one of three statements holds. -/
def ExactlyOne (first second third : Prop) : Prop :=
  (first ∧ ¬second ∧ ¬third) ∨ (¬first ∧ second ∧ ¬third) ∨ (¬first ∧ ¬second ∧ third)

/-- Whether a module has its own problem about a call of this name. -/
def Reports (module : ModuleTree) (name : String) : Prop :=
  ∃ problem ∈ module.ownProblems, problem.call? = some name

/-- Calls of one name are one call if the name is given once. -/
theorem eq_of_count_eq_one {calls : List ModuleCall} {call other : ModuleCall}
    (once : (calls.map ModuleCall.name).count call.name = 1) (made : call ∈ calls)
    (again : other ∈ calls) (same : other.name = call.name) : other = call := by
  rw [List.count, List.countP_map] at once
  exact Table.eq_of_countP_eq_one once again made (by simp [same]) (by simp)

/-- What the own problems of a module are. -/
inductive Records (module : ModuleTree) : Problem → Prop where
  | cyclic {call : ModuleCall} {directory : String}
      (listed : (call, .cyclic directory) ∈ module.calls) :
      Records module (.moduleCycle call.name directory)
  | failed {call : ModuleCall} {failure : Failure}
      (listed : (call, .failed failure) ∈ module.calls) :
      Records module (.submoduleLoad call.name failure.message)
  | missing (some : module.missingSources ≠ []) :
      Records module (.missingRemoteSubmodules module.site.directory module.missingSources)
  | variableFile {path message : String} : Records module (.variableFile path message)

theorem LoadedIn.records (loadedIn : LoadedIn files registry chain module) {problem : Problem}
    (own : problem ∈ module.ownProblems) : Records module problem := by
  rw [ownProblems, List.mem_append, List.mem_append] at own
  rcases own with (ofCalls | missing) | ofVariables
  · rcases List.mem_filterMap.mp ofCalls with ⟨⟨call, result⟩, listed, reported⟩
    cases result with
    | cyclic directory =>
        cases reported
        exact .cyclic listed
    | failed failure =>
        cases reported
        exact .failed listed
    | _ => cases reported
  · split at missing
    · cases missing
    · next inhabited =>
        rw [List.mem_singleton.mp missing]
        exact .missing fun empty => inhabited (List.isEmpty_iff.mpr empty)
  · rcases loadedIn.variableProblems problem ofVariables with ⟨_, _, rfl⟩
    exact .variableFile

theorem LoadedIn.isFatal_eq_false (loadedIn : LoadedIn files registry chain module)
    {problem : Problem} (own : problem ∈ module.ownProblems) : problem.isFatal = false := by
  cases loadedIn.records own <;> rfl

section Recorded

variable {result : CallResult ModuleTree}
  (loadedIn : LoadedIn files registry chain module) (made : (call, result) ∈ module.calls)
  (once : (module.content.calls.map ModuleCall.name).count call.name = 1)
include loadedIn made once

/-- What a module records under the name of a call is recorded for that call. -/
theorem result_eq_of_name {given : ModuleCall} {recorded : CallResult ModuleTree}
    (listed : (given, recorded) ∈ module.calls) (same : given.name = call.name) :
    given = call ∧ recorded = result := by
  have isCall := eq_of_count_eq_one once (loadedIn.becomes made).1 (loadedIn.becomes listed).1 same
  subst isCall
  rw [loadedIn.calls] at made listed
  rcases List.mem_map.mp made with ⟨_, _, equal⟩
  rcases List.mem_map.mp listed with ⟨_, _, again⟩
  cases equal
  cases again
  exact ⟨rfl, rfl⟩

theorem exists_child_iff : (∃ child, Table.find? call.name module.children = some child) ↔
    ∃ child, result = .loaded child := by
  constructor
  · rintro ⟨child, found⟩
    rcases exists_call_of_mem_children (Table.mem_of_find? found) with ⟨given, same, listed⟩
    exact ⟨child, (result_eq_of_name loadedIn made once listed same).2.symm⟩
  · rintro ⟨child, rfl⟩
    apply Table.exists_find?_of_mem_keys
    rw [children_eq, Table.mem_keys_ofList]
    exact ⟨child, List.mem_filterMap.mpr ⟨_, made, rfl⟩⟩

theorem reports_iff : module.Reports call.name ↔
    (∃ directory, result = .cyclic directory) ∨ ∃ failure, result = .failed failure := by
  constructor
  · rintro ⟨problem, own, named⟩
    cases loadedIn.records own with
    | cyclic listed =>
        have same := result_eq_of_name loadedIn made once listed (Option.some.inj named)
        exact .inl ⟨_, same.2.symm⟩
    | failed listed =>
        have same := result_eq_of_name loadedIn made once listed (Option.some.inj named)
        exact .inr ⟨_, same.2.symm⟩
    | missing | variableFile => cases named
  · intro wrong
    have reported : ∃ problem, result.problem? call = some problem ∧
        problem.call? = some call.name := by
      rcases wrong with ⟨directory, rfl⟩ | ⟨failure, rfl⟩
      · exact ⟨_, rfl, rfl⟩
      · exact ⟨_, rfl, rfl⟩
    rcases reported with ⟨problem, reported, named⟩
    refine ⟨problem, ?_, named⟩
    rw [ownProblems]
    exact List.mem_append_left _ (List.mem_append_left _
      (List.mem_filterMap.mpr ⟨_, made, reported⟩))

end Recorded

/-- A source that is missing for one call is missing for all that have it. -/
theorem mem_missingSources_iff {result : CallResult ModuleTree}
    (loadedIn : LoadedIn files registry chain module) (made : (call, result) ∈ module.calls)
    (given : call.source = some source) :
    source ∈ module.missingSources ↔ result = .notInstalled source := by
  rw [missingSources, List.mem_filterMap]
  constructor
  · rintro ⟨⟨other, recorded⟩, listed, missing⟩
    cases recorded with
    | notInstalled =>
        cases missing
        have nowhere :
            ModuleSite.sourceDirectory? registry module.site.directory source = none := by
          cases (loadedIn.becomes listed).2 with
          | notInstalled _ nowhere => exact nowhere
        cases (loadedIn.becomes made).2 with
        | noSource absent =>
            rw [absent] at given
            cases given
        | notInstalled same =>
            cases given.symm.trans same
            rfl
        | cyclic same leads | unlisted same leads | unread same leads | loaded same leads =>
            cases given.symm.trans same
            rw [nowhere] at leads
            cases leads
    | _ => cases missing
  · rintro rfl
    exact ⟨_, made, rfl⟩

/-- Of a call with a fixed source and a name of its own, exactly one thing is recorded. -/
theorem exactlyOne_recorded (loadedIn : LoadedIn files registry chain module)
    (made : call ∈ module.content.calls) (given : call.source = some source)
    (once : (module.content.calls.map ModuleCall.name).count call.name = 1) :
    ExactlyOne (∃ child, Table.find? call.name module.children = some child)
      (module.Reports call.name) (source ∈ module.missingSources) := by
  have listed : (call, callResult files registry chain module.site call) ∈ module.calls := by
    rw [loadedIn.calls]
    exact List.mem_map_of_mem made
  generalize callResult files registry chain module.site call = result at listed
  rw [exists_child_iff loadedIn listed once, reports_iff loadedIn listed once,
    mem_missingSources_iff loadedIn listed given, ExactlyOne]
  cases (loadedIn.becomes listed).2 with
  | noSource absent =>
      rw [absent] at given
      cases given
  | notInstalled same =>
      cases given.symm.trans same
      simp
  | cyclic | unlisted | unread | loaded => simp

/-- The missing sources of a module are reported in one problem. -/
theorem filter_isMissingRemote (loadedIn : LoadedIn files registry chain module) :
    module.ownProblems.filter Problem.isMissingRemote =
      if module.missingSources = [] then []
      else [.missingRemoteSubmodules module.site.directory module.missingSources] := by
  have ofCalls : (module.calls.filterMap fun call => call.2.problem? call.1).filter
      Problem.isMissingRemote = [] :=
    filter_callProblems_eq_nil (fun _ _ => rfl) (fun _ _ => rfl) module.calls
  have ofVariables : module.variableProblems.filter Problem.isMissingRemote = [] := by
    rw [List.filter_eq_nil_iff]
    intro problem member
    rcases loadedIn.variableProblems problem member with ⟨_, _, rfl⟩
    simp [Problem.isMissingRemote]
  rw [ownProblems, List.filter_append, List.filter_append, ofCalls, ofVariables]
  cases module.missingSources <;> simp [Problem.isMissingRemote]

/-! ## What a call leaves alone -/

theorem find?_children (tree : ModuleTree) (name : String) :
    Table.find? name tree.children = tree.calls.reverse.findSome? fun made =>
      if made.1.name = name then made.2.loaded? else none := by
  rw [← Table.find?_ofList_kept, children_eq, loadedCalls, Table.kept]
  congr 2
  refine List.filterMap_congr fun made _ => ?_
  cases made.2 <;> rfl

theorem find?_children_without (tree : ModuleTree) (route : List String) (name : String) :
    Table.find? name (tree.without route).children =
      if route = [name] then none
      else (Table.find? name tree.children).map (without (routeBelow route name)) := by
  rw [find?_children, find?_children, without_eq, ← List.map_reverse, List.findSome?_map]
  split
  · next last =>
      subst last
      rw [List.findSome?_eq_none_iff]
      intro made _
      by_cases same : made.1.name = name
      · simp [same, CallResult.loaded?]
      · simp [same]
  · next seen =>
      rw [List.map_findSome?]
      congr 1
      funext made
      by_cases same : made.1.name = name
      · subst same
        rw [Function.comp_apply, Function.comp_apply, if_pos rfl, if_pos rfl, if_neg seen,
          CallResult.loaded?_bind]
        cases made.2.loaded? <;> rfl
      · simp [same]

/-- Trees that are the same up to a call have the same module there, up to that call. -/
theorem exists_at?_of_without_eq {name : ModuleName} {call : String}
    (equal : other.without (name ++ [call]) = tree.without (name ++ [call]))
    (placed : tree.at? name = some module) :
    ∃ again, other.at? name = some again ∧ again.without [call] = module.without [call] := by
  induction name generalizing tree other with
  | nil =>
      cases placed
      exact ⟨other, rfl, equal⟩
  | cons first rest induction =>
      rcases Option.bind_eq_some_iff.mp placed with ⟨child, found, below⟩
      have children := congrArg (fun tree => Table.find? first tree.children) equal
      have further : first :: (rest ++ [call]) ≠ [first] := by simp
      simp only [List.cons_append, find?_children_without, further, if_false, found, routeBelow,
        if_pos, Option.map_some, Option.map_eq_some_iff] at children
      rcases children with ⟨otherChild, otherFound, same⟩
      rcases induction same below with ⟨again, otherPlaced, equal⟩
      refine ⟨again, ?_, equal⟩
      rw [at?, otherFound]
      exact otherPlaced

/-- Whether two modules are the same apart from what became of their calls of one name. -/
structure AlikeBeside (call : String) (module again : ModuleTree) : Prop where
  site : again.site = module.site
  content : again.content = module.content
  children : ∀ name, name ≠ call →
    Table.find? name again.children = Table.find? name module.children
  calls : (again.calls.filter fun made => made.1.name ≠ call) =
    module.calls.filter fun made => made.1.name ≠ call
  reports : ∀ problem name, problem.call? = some name → name ≠ call →
    (problem ∈ again.ownProblems ↔ problem ∈ module.ownProblems)

/-- A problem about a call is that of a result, or not of the calls at all. -/
theorem mem_ownProblems_iff {problem : Problem} {name : String}
    (about : problem.call? = some name) :
    problem ∈ module.ownProblems ↔
      (∃ made ∈ module.calls.filter fun made => made.1.name = name,
        made.2.problem? made.1 = some problem) ∨ problem ∈ module.variableProblems := by
  have named (made : ModuleCall × CallResult ModuleTree)
      (reported : made.2.problem? made.1 = some problem) : made.1.name = name := by
    rcases made with ⟨call, result⟩
    cases result <;> cases reported <;> exact Option.some.inj about
  have others : problem ∉ if module.missingSources.isEmpty then []
      else [.missingRemoteSubmodules module.site.directory module.missingSources] := by
    split
    · exact List.not_mem_nil
    · intro missing
      rw [List.mem_singleton.mp missing] at about
      cases about
  rw [ownProblems, List.mem_append, List.mem_append, or_iff_left others, List.mem_filterMap]
  refine or_congr_left (exists_congr fun made => ?_)
  rw [List.mem_filter, decide_eq_true_eq]
  constructor
  · rintro ⟨listed, reported⟩
    exact ⟨⟨listed, named made reported⟩, reported⟩
  · rintro ⟨⟨listed, _⟩, reported⟩
    exact ⟨listed, reported⟩

/-- Leaving out a call leaves the other calls. -/
theorem filter_calls_without (tree : ModuleTree) (call : String) :
    ((tree.without [call]).calls.filter fun made => made.1.name ≠ call) =
      tree.calls.filter fun made => made.1.name ≠ call := by
  rw [without]
  induction tree.calls with
  | nil => rfl
  | cons made rest induction =>
      rw [List.map_cons, List.filter_cons, List.filter_cons, induction]
      by_cases same : made.1.name = call
      · simp [same]
      · simp [same]

theorem alikeBeside_of_without_eq {call : String} {again : ModuleTree}
    (equal : again.without [call] = module.without [call]) : AlikeBeside call module again := by
  have calls := congrArg (fun tree : ModuleTree =>
    tree.calls.filter fun made => made.1.name ≠ call) equal
  simp only [filter_calls_without] at calls
  have parts := equal
  rw [without_eq, without_eq, mk.injEq] at parts
  rcases parts with ⟨site, content, _, _, variableProblems⟩
  refine ⟨site, content, fun name different => ?_, calls, fun problem name about different => ?_⟩
  · have children := congrArg (fun tree => Table.find? name tree.children) equal
    have seen : ¬[call] = [name] := by simpa using Ne.symm different
    have whole : without (routeBelow [call] name) = id := by
      rw [routeBelow, if_neg (Ne.symm different)]
      rfl
    simpa only [find?_children_without, if_neg seen, whole, Option.map_id_fun, id_eq] using children
  · have ofName (tree : ModuleTree) : (tree.calls.filter fun made => made.1.name = name) =
        (tree.calls.filter fun made => made.1.name ≠ call).filter
          fun made => made.1.name = name := by
      rw [List.filter_filter]
      refine List.filter_congr fun made _ => ?_
      by_cases same : made.1.name = name
      · simp [same, different]
      · simp [same]
    rw [mem_ownProblems_iff about, mem_ownProblems_iff about, variableProblems, ofName again,
      ofName module, calls]

/-- Loading contains its faults. A load ends without a tree exactly if the directory of the root
module cannot be listed, or a primary file in it cannot be read or parsed. All problems of a
loaded tree are such as end nothing. In each of its modules exactly one thing is recorded of
a call with a fixed source and a name of its own: the called module, a problem under the name
of the call, or its source among those that are missing, which one problem reports. Whatever
is different in the answers that are only asked for a call, also far below it, the rest of
the tree is the same. -/
theorem load_faults_contained (files : Files) (registry : Registry) (directory : String)
    (inputs : VariableInputs) :
    ((∃ failure, load files registry directory inputs = .error failure) ↔
      (∃ error, files.list directory = .error error) ∨
        ∃ paths path, ModuleSite.primaryFiles files directory = .ok paths ∧ path ∈ paths ∧
          ¬files.Parses path) ∧
    ∀ tree, load files registry directory inputs = .ok tree →
      (∀ problem ∈ tree.problems, problem.isFatal = false) ∧
      ∀ name module, tree.at? name = some module →
        (∀ call source, call ∈ module.content.calls → call.source = some source →
          (module.content.calls.map ModuleCall.name).count call.name = 1 →
          ExactlyOne (∃ child, Table.find? call.name module.children = some child)
            (module.Reports call.name) (source ∈ module.missingSources)) ∧
        (module.ownProblems.filter Problem.isMissingRemote =
          if module.missingSources = [] then []
          else [.missingRemoteSubmodules module.site.directory module.missingSources]) ∧
        ∀ call (others : Files), others.directory = files.directory →
          (∀ question, AsksAtRoot files registry directory inputs (name ++ [call]) question →
            question.Alike files others) →
          ∃ other again, load others registry directory inputs = .ok other ∧
            other.without (name ++ [call]) = tree.without (name ++ [call]) ∧
            other.at? name = some again ∧ AlikeBeside call module again := by
  refine ⟨exists_load_error_iff, fun tree loaded => ?_⟩
  rcases exists_loadFiles_of_load loaded with ⟨_, _, inFiles⟩
  have loadedIn (name : ModuleName) (module : ModuleTree) (placed : tree.at? name = some module) :
      ∃ chain, LoadedIn files registry chain module := by
    rcases exists_ancestry placed with ⟨above, reached, _⟩
    exact ⟨_, reached.loadedIn inFiles⟩
  refine ⟨fun problem member => ?_, fun name module placed => ?_⟩
  · rcases (mem_problems_iff tree).mp member with ⟨name, module, placed, own⟩
    rcases loadedIn name module placed with ⟨_, here⟩
    exact here.isFatal_eq_false own
  · rcases loadedIn name module placed with ⟨_, here⟩
    refine ⟨fun call source made given once => ?_, filter_isMissingRemote here,
      fun call others same alike => ?_⟩
    · exact exactlyOne_recorded here made given once
    · have equal := load_without_eq same alike
      rw [loaded] at equal
      cases again : load others registry directory inputs with
      | error failure =>
          rw [again] at equal
          cases equal
      | ok other =>
          rw [again] at equal
          have trees : other.without (name ++ [call]) = tree.without (name ++ [call]) :=
            (Except.ok.inj equal).symm
          rcases exists_at?_of_without_eq trees placed with ⟨module, otherPlaced, modules⟩
          exact ⟨other, module, rfl, trees, otherPlaced, alikeBeside_of_without_eq modules⟩

/-- A module that calls two others and one that has not been fetched. -/
def callingFiles (bad : String) : Files where
  medium := .memory
  entries := [(["r", "bad", "main.tf"], bad),
    (["r", "good", "main.tf"], "locals \x7b\nv = 1\n\x7d\n"),
    (["r", "main.tf"], "module \"bad\" \x7b\nsource = \"./bad\"\n\x7d\n" ++
      "module \"good\" \x7b\nsource = \"./good\"\n\x7d\n" ++
      "module \"far\" \x7b\nsource = \"acme/far\"\n\x7d\n")]
  directory := []
  standing := []

private theorem read_callingFiles (bad : String) {path : String}
    (elsewhere : path ∈ ["/r/main.tf", "/r/./good/main.tf"]) :
    ModuleContent.read (callingFiles bad) [path] = ModuleContent.read (callingFiles "") [path] := by
  apply read_eq_of_alike
  intro other listed
  cases List.mem_singleton.mp listed
  rcases List.mem_pair.mp elsewhere with rfl | rfl <;> rfl

private theorem calls_main {bad : String} {content : ModuleContent}
    (done : ModuleContent.read (callingFiles bad) ["/r/main.tf"] = .ok content) :
    content.calls.map (fun call => (call.name, call.source)) =
      [("bad", some "./bad"), ("good", some "./good"), ("far", some "acme/far")] := by
  rcases exists_of_check (ModuleContent.read (callingFiles "") ["/r/main.tf"]) (fun content =>
      content.calls.map (fun call => (call.name, call.source)) =
        [("bad", some "./bad"), ("good", some "./good"), ("far", some "acme/far")])
      (by decide +kernel) with ⟨found, again, checked⟩
  rw [read_callingFiles bad (by decide), again] at done
  cases done
  exact of_decide_eq_true checked

private theorem calls_good {bad : String} {content : ModuleContent}
    (done : ModuleContent.read (callingFiles bad) ["/r/./good/main.tf"] = .ok content) :
    content.calls = [] := by
  rcases exists_of_check (ModuleContent.read (callingFiles "") ["/r/./good/main.tf"])
      (fun content => content.calls.isEmpty) (by decide +kernel) with ⟨found, again, checked⟩
  rw [read_callingFiles bad (by decide), again] at done
  cases done
  exact List.isEmpty_iff.mp checked

/-- What the call `bad` leads to matters to no question that is asked for the other calls. -/
theorem alike_callingFiles (first second : String) {question : Question}
    (asked : AsksAtRoot (callingFiles first) [] "/r" .empty ["bad"] question) :
    question.Alike (callingFiles first) (callingFiles second) := by
  have main : ModuleSite.primaryFiles (callingFiles first) "/r" = .ok ["/r/main.tf"] := rfl
  have good : ModuleSite.primaryFiles (callingFiles first) "/r/./good" =
      .ok ["/r/./good/main.tf"] := rfl
  cases asked with
  | list => rfl
  | values applies => cases applies
  | modules listed asked =>
      cases main.symm.trans listed
      cases asked with
      | read own =>
          cases List.mem_singleton.mp own
          rfl
      | list => rfl
      | inside done made seen leads listed asked =>
          have given := List.mem_map_of_mem (f := fun call => (call.name, call.source)) made
          rw [calls_main done] at given
          simp only [List.mem_cons, Prod.mk.injEq, List.not_mem_nil, or_false] at given
          rcases leads with ⟨⟨source, same, leads⟩, _⟩
          rcases given with ⟨named, given⟩ | ⟨_, given⟩ | ⟨_, given⟩
          · exact absurd (congrArg (fun name => [name]) named.symm) seen
          · cases given.symm.trans same
            cases leads
            cases good.symm.trans listed
            cases asked with
            | read own =>
                cases List.mem_singleton.mp own
                rfl
            | list => rfl
            | inside done made =>
                rw [calls_good done] at made
                cases made
          · cases given.symm.trans same
            cases leads

/-- The text of a file that does not parse, and of one that does. -/
def brokenText : String := "locals \x7b\n"

def mendedText : String := "locals \x7b\nv = 2\n\x7d\n"

theorem load_faults_contained_bad : ∃ tree other,
    load (callingFiles brokenText) [] "/r" .empty = .ok tree ∧
    load (callingFiles mendedText) [] "/r" .empty = .ok other ∧
    tree.Reports "bad" ∧ (Table.find? "bad" other.children).isSome = true ∧
    (Table.find? "good" tree.children).isSome = true ∧
    Table.find? "good" other.children = Table.find? "good" tree.children ∧
    tree.missingSources = ["acme/far"] ∧ ∀ problem ∈ tree.problems, problem.isFatal = false := by
  rcases exists_of_check (load (callingFiles brokenText) [] "/r" .empty) (fun tree =>
      (Table.find? "good" tree.children).isSome && (Table.find? "bad" tree.children).isNone &&
        tree.missingSources = ["acme/far"] &&
        (tree.content.calls.map ModuleCall.name).count "bad" = 1 &&
        tree.content.calls.any fun call => call.name = "bad" && call.source = some "./bad")
      (by decide +kernel) with ⟨tree, loaded, checked⟩
  rcases exists_of_check (load (callingFiles mendedText) [] "/r" .empty) (fun tree =>
      (Table.find? "bad" tree.children).isSome) (by decide +kernel) with ⟨mended, again, present⟩
  simp only [Bool.and_eq_true, decide_eq_true_eq, List.any_eq_true] at checked
  rcases checked with ⟨⟨⟨⟨good, bad⟩, missing⟩, once⟩, call, made, named, given⟩
  have contained := (load_faults_contained (callingFiles brokenText) [] "/r" .empty).2 tree loaded
  rcases contained.2 [] tree rfl with ⟨recorded, _, frame⟩
  rcases frame "bad" (callingFiles mendedText) rfl fun question asked =>
    alike_callingFiles brokenText mendedText asked with
    ⟨other, module, otherLoaded, _, placed, beside⟩
  cases placed
  cases again.symm.trans otherLoaded
  refine ⟨tree, mended, loaded, again, ?_, present, good, beside.children "good" (by decide),
    missing, contained.1⟩
  rcases recorded call "./bad" made given (by rw [named]; exact once) with
    ⟨⟨child, found⟩, _⟩ | ⟨_, reported, _⟩ | ⟨_, _, absent⟩
  · rw [named] at found
    rw [found] at bad
    cases bad
  · exact named ▸ reported
  · rw [missing] at absent
    exact absurd absent (by decide)

end ModuleTree

end Groundplan
