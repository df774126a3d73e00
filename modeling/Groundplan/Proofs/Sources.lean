import Groundplan.Proofs.Cycles
/-!
Sources of called modules. The registry is asked for every source first. So a source that is
relative to the caller leads to the directory relative to it exactly if no entry of the
registry sends it elsewhere, and registries load the same tree if they lead its relative
sources to the same directories.
-/

namespace Groundplan

namespace ModuleSite

variable {registry first second : Registry} {directory source : String}

/-- Whether a source starts with the directory of the caller or with the one around it. -/
def IsRelative (source : String) : Prop :=
  "./".toList <+: source.toList ∨ "../".toList <+: source.toList

instance (source : String) : Decidable (IsRelative source) :=
  inferInstanceAs (Decidable ("./".toList <+: source.toList ∨ "../".toList <+: source.toList))

theorem IsRelative.isLocal (relative : IsRelative source) : isLocal source = true := by
  rw [ModuleSite.isLocal, Bool.or_eq_true, Bool.or_eq_true, List.isPrefixOf_iff_prefix,
    List.isPrefixOf_iff_prefix]
  exact .inl relative

/-- A relative source leads to the directory relative to the caller unless the registry has
another one for its text. -/
theorem IsRelative.sourceDirectory?_eq_join_iff (relative : IsRelative source) :
    sourceDirectory? registry directory source = some (Path.join directory source) ↔
      ∀ fetched, registry.resolve? source = some fetched →
        fetched = Path.join directory source := by
  rw [sourceDirectory?]
  cases registry.resolve? source with
  | none => simp [relative.isLocal]
  | some fetched => simp

/-- Whether two registries have the same for every source that is not relative. -/
def AlikeElsewhere (first second : Registry) : Prop :=
  ∀ source, ¬IsRelative source → first.resolve? source = second.resolve? source

/-- Whether two registries lead the relative source of a call to the same directory. -/
def LedAlike (first second : Registry) (directory : String) (call : ModuleCall) : Prop :=
  ∀ source, call.source = some source → IsRelative source →
    sourceDirectory? first directory source = sourceDirectory? second directory source

theorem LedAlike.sourceDirectory?_eq {call : ModuleCall}
    (ledAlike : LedAlike first second directory call) (alike : AlikeElsewhere first second)
    (given : call.source = some source) :
    sourceDirectory? first directory source = sourceDirectory? second directory source := by
  by_cases relative : IsRelative source
  · exact ledAlike source given relative
  · rw [sourceDirectory?, sourceDirectory?, alike source relative]

end ModuleSite

open ModuleSite (IsRelative AlikeElsewhere LedAlike sourceDirectory?)

/-- The directory that a call was found to lead to. -/
def CallResult.directory? : CallResult ModuleTree → Option String
  | cyclic directory => some directory
  | loaded child => some child.site.directory
  | _ => none

namespace ModuleTree

variable {files : Files} {registry first second : Registry} {chain : List Location}
  {site : ModuleSite} {tree module : ModuleTree} {above : List ModuleTree} {call : ModuleCall}

theorem callTarget_congr (alike : AlikeElsewhere first second)
    (ledAlike : LedAlike first second site.directory call) :
    callTarget files first chain site call = callTarget files second chain site call := by
  rw [callTarget, callTarget]
  cases given : call.source with
  | none => rfl
  | some source =>
      dsimp only
      rw [ledAlike.sourceDirectory?_eq alike given]

/-- What became of a call tells where its source led, unless something failed there. -/
theorem Becomes.sourceDirectory?_eq {result : CallResult ModuleTree}
    (becomes : Becomes files registry chain site call result) {source : String}
    (given : call.source = some source) (succeeds : ∀ failure, result ≠ .failed failure) :
    sourceDirectory? registry site.directory source = result.directory? := by
  cases becomes with
  | noSource absent =>
      rw [absent] at given
      cases given
  | notInstalled same nowhere =>
      cases given.symm.trans same
      exact nowhere
  | cyclic same leads =>
      cases given.symm.trans same
      exact leads
  | unlisted | unread => exact absurd rfl (succeeds _)
  | loaded same leads _ _ inner =>
      cases given.symm.trans same
      rw [CallResult.directory?, (loadedIn_of_loadIn inner).1, leads]

/-- What a called module reaches is reached from its caller. -/
theorem Ancestry.ofChild {child : ModuleTree} (made : (call, .loaded child) ∈ tree.calls)
    (reached : Ancestry child module above) : Ancestry tree module (above ++ [tree]) := by
  induction reached with
  | root => exact .call .root made
  | call _ loaded induction => exact .call induction loaded

theorem Ancestry.withInputs (files : Files) (inputs : VariableInputs)
    (reached : Ancestry tree module above) :
    module = tree ∨ ∃ others, Ancestry (tree.withInputs files inputs) module others := by
  induction reached with
  | root => exact .inl rfl
  | @call module child above made reached loaded induction =>
      rcases induction with rfl | ⟨others, reached⟩
      · exact .inr ⟨_, .call .root loaded⟩
      · exact .inr ⟨_, .call reached loaded⟩

/-- Registries that lead the relative sources of a tree alike load the same tree. -/
theorem loadIn_of_ledAlike {chain : List Location} {site : ModuleSite} {tree : ModuleTree}
    (alike : AlikeElsewhere first second)
    (loaded : loadIn files first chain site = .ok tree)
    (ledAlike : ∀ module above, Ancestry tree module above → ∀ call ∈ module.content.calls,
      LedAlike first second module.site.directory call) :
    loadIn files second chain site = .ok tree := by
  rcases loadIn_eq_ok_iff.mp loaded with ⟨content, done, same⟩
  refine loadIn_eq_ok_iff.mpr ⟨content, done, same.trans ?_⟩
  congr 1
  apply List.map_congr_left
  intro call made
  congr 1
  have target : callTarget files first chain site call =
      callTarget files second chain site call := by
    refine callTarget_congr alike ?_
    rw [same] at ledAlike
    exact ledAlike _ [] .root call made
  rw [callResult, callResult, ← target]
  cases led : callTarget files first chain site call with
  | loaded target =>
      rw [CallResult.bind, CallResult.bind]
      congr 1
      cases inner : loadIn files first (files.locate target.directory :: chain) target with
      | error failure =>
          rw [loadIn_eq_error_iff] at inner
          exact (loadIn_eq_error_iff.mpr inner).symm
      | ok child =>
          have isCall : (call, .loaded child) ∈ tree.calls := by
            rw [same]
            refine List.mem_map.mpr ⟨call, made, ?_⟩
            rw [callResult, led, CallResult.bind, inner, CallResult.ofLoaded]
          have := sizeOf_lt_of_mem_calls isCall
          exact (loadIn_of_ledAlike alike inner fun module above reached =>
            ledAlike module _ (.ofChild isCall reached)).symm
  | _ => rfl
termination_by sizeOf tree

section Roots

variable {directory : String} {inputs : VariableInputs}

theorem load_of_ledAlike (alike : AlikeElsewhere first second)
    (loaded : load files first directory inputs = .ok tree)
    (ledAlike : ∀ module above, Ancestry tree module above → ∀ call ∈ module.content.calls,
      LedAlike first second module.site.directory call) :
    load files second directory inputs = .ok tree := by
  rcases exists_loadFiles_of_load loaded with ⟨paths, listed, inFiles⟩
  rcases loadFiles_eq_ok_iff.mp inFiles with ⟨plain, inner, rfl⟩
  have again := loadIn_of_ledAlike alike inner fun module above reached => by
    rcases reached.withInputs files inputs with rfl | ⟨others, reached⟩
    · exact ledAlike (module.withInputs files inputs) [] .root
    · exact ledAlike module others reached
  rw [load, listed]
  exact loadFiles_eq_ok_iff.mpr ⟨plain, again, rfl⟩

/-- Where the same tree is loaded, calls are led alike, except to what fails. -/
theorem Ancestry.ledAlike {result : CallResult ModuleTree}
    (loaded : load files first directory inputs = .ok tree)
    (again : load files second directory inputs = .ok tree)
    (reached : Ancestry tree module above) (made : (call, result) ∈ module.calls)
    (succeeds : ∀ failure, result ≠ .failed failure) :
    LedAlike first second module.site.directory call := by
  rcases exists_loadFiles_of_load loaded with ⟨_, _, loaded⟩
  rcases exists_loadFiles_of_load again with ⟨_, _, again⟩
  have becomes := ((reached.loadedIn loaded).becomes made).2
  have becomesAgain := ((reached.loadedIn again).becomes made).2
  intro source given _
  rw [becomes.sourceDirectory?_eq given succeeds, becomesAgain.sourceDirectory?_eq given succeeds]

/-- Registries that have the same for every source that is not relative fail alike, and load
the same tree exactly if they lead its relative sources alike, those of failing calls apart. A
relative source leads to the directory relative to its own caller exactly if no entry of the
registry sends it elsewhere. -/
theorem relative_sources_ledAlike (files : Files) (directory : String) (inputs : VariableInputs)
    (alike : AlikeElsewhere first second) :
    (∀ failure, load files first directory inputs = .error failure ↔
      load files second directory inputs = .error failure) ∧
    (∀ tree, load files first directory inputs = .ok tree →
      (∀ module above, Ancestry tree module above → ∀ call ∈ module.content.calls,
        LedAlike first second module.site.directory call) →
      load files second directory inputs = .ok tree) ∧
    (∀ tree, load files first directory inputs = .ok tree →
      load files second directory inputs = .ok tree →
      ∀ module above, Ancestry tree module above → ∀ call result, (call, result) ∈ module.calls →
        (∀ failure, result ≠ .failed failure) →
        LedAlike first second module.site.directory call) ∧
    ∀ (registry : Registry) caller source, IsRelative source →
      (sourceDirectory? registry caller source = some (Path.join caller source) ↔
        ∀ fetched, registry.resolve? source = some fetched →
          fetched = Path.join caller source) := by
  refine ⟨fun failure => ?_, ?_, ?_, ?_⟩
  · rw [load_eq_error_iff, load_eq_error_iff]
  · intro tree loaded ledAlike
    exact load_of_ledAlike alike loaded ledAlike
  · intro tree loaded again module above reached call result made succeeds
    exact reached.ledAlike loaded again made succeeds
  · intro registry caller source relative
    exact relative.sourceDirectory?_eq_join_iff

end Roots

/-- A module that calls another one. -/
def pairFiles : Files :=
  Files.ofList [("/r/main.tf", "module \"x\" \x7b\nsource = \"./x\"\n\x7d\n"),
    ("/r/x/main.tf", "locals \x7b\nv = 1\n\x7d\n")]

/-- A registry with a relative source that nothing calls. -/
def otherRegistry : Registry := [("./other", "/elsewhere")]

theorem alikeElsewhere_otherRegistry : AlikeElsewhere [] otherRegistry := by
  intro source absolute
  rw [Registry.resolve?, Registry.resolve?, otherRegistry, Table.find?_cons_of_ne]
  rintro rfl
  exact absolute (by decide)

/-- Whether all calls of a module have one source, and the modules that it calls none. -/
def callsPlainly (tree : ModuleTree) (source : String) : Bool :=
  tree.calls.all fun call => call.1.source = some source &&
    match call.2 with
    | .loaded child => child.calls.isEmpty
    | _ => true

theorem Ancestry.source_of_callsPlainly {directory source : String} {paths : List String}
    {inputs : VariableInputs}
    (loaded : loadFiles files registry directory paths inputs = .ok tree)
    (reached : Ancestry tree module above) (plainly : callsPlainly tree source = true)
    (made : call ∈ module.content.calls) : call.source = some source := by
  have calls := (reached.loadedIn loaded).calls
  have listed : (call, callResult files registry (locations files (module :: above)) module.site
      call) ∈ module.calls := calls ▸ List.mem_map_of_mem made
  have all := List.all_eq_true.mp plainly
  have rootOrNone : module = tree ∨ module.calls = [] := by
    clear listed calls made
    induction reached with
    | root => exact .inl rfl
    | call _ isCall induction =>
        rcases induction with rfl | none
        · have child := all _ isCall
          rw [Bool.and_eq_true] at child
          exact .inr (List.isEmpty_iff.mp child.2)
        · rw [none] at isCall
          cases isCall
  rcases rootOrNone with rfl | none
  · have named := all _ listed
    rw [Bool.and_eq_true] at named
    exact of_decide_eq_true named.1
  · rw [none] at listed
    cases listed

theorem relative_sources_ledAlike_pairFiles : ∃ tree,
    load pairFiles [] "/r" .empty = .ok tree ∧ load pairFiles otherRegistry "/r" .empty = .ok tree ∧
    (tree.at? ["x"]).map (fun module => module.site.directory) = some "/r/./x" ∧
    sourceDirectory? otherRegistry "/r" "./x" = some "/r/./x" := by
  have whole := relative_sources_ledAlike pairFiles "/r" .empty alikeElsewhere_otherRegistry
  rcases exists_of_check (load pairFiles [] "/r" .empty) (fun tree =>
      (tree.at? ["x"]).map (fun module => module.site.directory) = some "/r/./x" &&
        callsPlainly tree "./x") (by decide +kernel) with ⟨tree, loaded, checked⟩
  rw [Bool.and_eq_true, decide_eq_true_eq] at checked
  refine ⟨tree, loaded, whole.2.1 tree loaded fun module above reached call made => ?_,
    checked.1, (whole.2.2.2 _ _ _ (by decide)).mpr fun fetched found => by cases found⟩
  intro source given _
  rcases exists_loadFiles_of_load loaded with ⟨_, _, inFiles⟩
  have named := reached.source_of_callsPlainly inFiles checked.2 made
  rw [given, Option.some.injEq] at named
  subst named
  rfl

/-- Two modules that call modules of their own by the same source, and the index of both. -/
def innerFiles : Files :=
  Files.ofList [
    ("/r/main.tf", "module \"x\" \x7b\nsource = \"./x\"\n\x7d\n" ++
      "module \"y\" \x7b\nsource = \"./y\"\n\x7d\n"),
    ("/r/x/main.tf", "module \"inner\" \x7b\nsource = \"./inner\"\n\x7d\n"),
    ("/r/y/main.tf", "module \"inner\" \x7b\nsource = \"./inner\"\n\x7d\n"),
    ("/r/x/inner/main.tf", "locals \x7b\nv = 1\n\x7d\n"),
    ("/r/y/inner/main.tf", "locals \x7b\nv = 2\n\x7d\n"),
    ("/r/.terraform/modules/modules.json",
      "\x7b\"Modules\": [\x7b\"Source\": \"./inner\", \"Dir\": \"x/inner\"\x7d," ++
        "\x7b\"Source\": \"./inner\", \"Dir\": \"y/inner\"\x7d]\x7d")]

/-- An index has one directory for a source, whoever calls it: the inner module of `y` is
loaded from the directory of `x`. -/
theorem exists_redirected : ∃ files registry, (registry, []) = Registry.load files "/r" ∧
    AlikeElsewhere registry [] ∧ ∃ tree module, load files registry "/r" .empty = .ok tree ∧
      tree.at? ["y", "inner"] = some module ∧ module.site.directory = "/r/x/inner" ∧
      load files [] "/r" .empty ≠ .ok tree := by
  have index : Registry.load innerFiles "/r" = ([("./inner", "/r/x/inner")], []) := by
    decide +kernel
  have alike : AlikeElsewhere [("./inner", "/r/x/inner")] [] := by
    intro source absolute
    rw [Registry.resolve?, Registry.resolve?, Table.find?_cons_of_ne]
    rintro rfl
    exact absolute (by decide)
  rcases exists_of_check (load innerFiles [("./inner", "/r/x/inner")] "/r" .empty) (fun tree =>
      (tree.at? ["y", "inner"]).any fun module => module.site.directory = "/r/x/inner")
      (by decide +kernel) with ⟨tree, loaded, checked⟩
  rcases exists_of_check (load innerFiles [] "/r" .empty) (fun tree =>
      (tree.at? ["y", "inner"]).all fun module => module.site.directory ≠ "/r/x/inner")
      (by decide +kernel) with ⟨direct, directLoaded, directChecked⟩
  rcases (Option.any_eq_true _ _).mp checked with ⟨module, placed, redirected⟩
  refine ⟨innerFiles, _, index.symm, alike, tree, module, loaded, placed,
    of_decide_eq_true redirected, fun same => ?_⟩
  cases directLoaded.symm.trans same
  rw [placed, Option.all_some] at directChecked
  exact of_decide_eq_true directChecked (of_decide_eq_true redirected)

end ModuleTree

end Groundplan
