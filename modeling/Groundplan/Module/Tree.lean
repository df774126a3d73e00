import Groundplan.Module.Content
import Groundplan.Registry
import Groundplan.VariableFile
/-!
Module trees. A module is loaded with every module that it calls, as long as no
call leads back to a directory that is being loaded. What is wrong with a called
module is kept beside its call and leaves the rest of the tree as it is.
-/

namespace Groundplan

/-- Where a module is. The location is that of its call. -/
structure ModuleSite where
  directory : String
  files : List String
  location : Option SourceRange

/-- What became of a call, with called modules of type `τ`. -/
inductive CallResult (τ : Type) where
  /-- The source is no fixed text. -/
  | noSource
  /-- The source has not been fetched. -/
  | notInstalled (source : String)
  /-- The directory is already being loaded. -/
  | cyclic (directory : String)
  | failed (failure : Failure)
  | loaded (child : τ)

structure ModuleTree where
  site : ModuleSite
  content : ModuleContent
  /-- The calls of the content in order, and what became of them. -/
  calls : List (ModuleCall × CallResult ModuleTree)
  /-- Values that are given for variables from outside. -/
  given : Table String Value
  /-- Variable files that give no values. -/
  variableProblems : List Problem

namespace CallResult

variable {τ : Type}

def missingSource? : CallResult τ → Option String
  | notInstalled source => some source
  | _ => none

def problem? (call : ModuleCall) : CallResult τ → Option Problem
  | cyclic directory => some (.moduleCycle call.name directory)
  | failed failure => some (.submoduleLoad call.name failure.message)
  | _ => none

/-- What is said about a call while its module is loaded. -/
def warnings (call : ModuleCall) : CallResult τ → List String
  | noSource => ["module '" ++ call.name ++ "' has no static source, skipping"]
  | notInstalled source =>
      ["remote module '" ++ call.name ++ "' (" ++ source ++ ") is not installed"]
  | cyclic directory =>
      ["module '" ++ call.name ++ "' at " ++ directory ++ " is already being loaded"]
  | failed failure => ["skipping submodule '" ++ call.name ++ "': " ++ failure.message]
  | loaded _ => []

end CallResult

/-! ## Files and directories -/

namespace ModuleSite

/-- A file of a module, unless it is one that overrides others. -/
def isPrimary (name : String) : Bool :=
  let letters := name.toList
  ".tf".toList.isSuffixOf letters && name != "override.tf" &&
    !"_override.tf".toList.isSuffixOf letters

def primaryFiles (files : Files) (directory : String) : Except Failure (List String) :=
  match files.list directory with
  | .ok names => .ok ((names.filter isPrimary).map (Path.join directory))
  | .error error => .error (.unlisted directory error)

/-- A source that is a path is local. -/
def isLocal (source : String) : Bool :=
  "./".toList.isPrefixOf source.toList || "../".toList.isPrefixOf source.toList ||
    Path.isAbsolute source

/-- The directory of a source, as seen from the directory of the caller. -/
def sourceDirectory? (registry : Registry) (directory source : String) : Option String :=
  match registry.resolve? source with
  | some fetched => some fetched
  | none => if isLocal source then some (Path.join directory source) else none

end ModuleSite

theorem listed_mem_places {files : Files} {directory : String} {paths : List String}
    (listed : ModuleSite.primaryFiles files directory = .ok paths) :
    files.locate directory ∈ files.places := by
  unfold ModuleSite.primaryFiles at listed
  split at listed
  · next names found => exact Files.mem_places_of_list found
  · simp at listed

theorem remaining_lt {places chain : List Location} {place : Location}
    (member : place ∈ places) (fresh : ¬chain.contains place = true) :
    (places.filter fun other => !(place :: chain).contains other).length <
      (places.filter fun other => !chain.contains other).length := by
  have inside : place ∈ places.filter fun other => !chain.contains other := by
    simp only [List.mem_filter]
    exact ⟨member, by simpa using fresh⟩
  have split : (places.filter fun other => !(place :: chain).contains other) =
      (places.filter fun other => !chain.contains other).filter fun other => other != place := by
    rw [List.filter_filter]
    apply List.filter_congr
    intro other _
    by_cases same : other = place <;> simp [same]
  rw [split]
  exact List.length_filter_lt_length_iff_exists.mpr ⟨place, inside, by simp⟩

namespace ModuleTree

/-! ## Loading -/

/-- Load the module of a site and every module that it calls. `chain` holds the
location of the module and those of all modules that led to it. -/
def loadIn (files : Files) (registry : Registry) (chain : List Location) (site : ModuleSite) :
    Except Failure ModuleTree :=
  match ModuleContent.read files site.files with
  | .error failure => .error failure
  | .ok content =>
      .ok
        { site, content, given := [], variableProblems := []
          calls := content.calls.map fun call =>
            (call,
              match call.source with
              | none => .noSource
              | some source =>
                  match ModuleSite.sourceDirectory? registry site.directory source with
                  | none => .notInstalled source
                  | some directory =>
                      if chain.contains (files.locate directory) then .cyclic directory
                      else
                        match _ : ModuleSite.primaryFiles files directory with
                        | .error failure => .failed failure
                        | .ok paths =>
                            match loadIn files registry (files.locate directory :: chain)
                                ⟨directory, paths, some call.location⟩ with
                            | .error failure => .failed failure
                            | .ok child => .loaded child) }
termination_by (files.places.filter fun place => !chain.contains place).length
decreasing_by exact remaining_lt (listed_mem_places (by assumption)) ‹_›

end ModuleTree

structure VariableInputs where
  /-- Files that apply after those that apply by their name. -/
  files : List String
  /-- Values that count before those of any file. -/
  values : Table String Value

namespace VariableInputs

def empty : VariableInputs := ⟨[], []⟩

/-- Take over the values of a file, or the problem that it has. -/
def applyFile (files : Files) (taken : Table String Value × List Problem) (path : String) :
    Table String Value × List Problem :=
  match VariableFile.load files path with
  | .ok values => (Table.union taken.1 values, taken.2)
  | .error error => (taken.1, taken.2 ++ [.variableFile path error.message])

/-- The files that give values for the module in a directory, in the order in
which they apply. -/
def filesFor (inputs : VariableInputs) (files : Files) (directory : String) : List String :=
  (VariableFile.find files directory).toOption.getD [] ++ inputs.files

end VariableInputs

namespace ModuleTree

def withInputs (files : Files) (inputs : VariableInputs) (tree : ModuleTree) : ModuleTree :=
  let (values, problems) :=
    (inputs.filesFor files tree.site.directory).foldl (VariableInputs.applyFile files) ([], [])
  { tree with given := Table.union values inputs.values, variableProblems := problems }

/-- Load a root module that consists of the files at `paths`. -/
def loadFiles (files : Files) (registry : Registry) (directory : String) (paths : List String)
    (inputs : VariableInputs) : Except Failure ModuleTree := do
  let tree ← loadIn files registry [files.locate directory] ⟨directory, paths, none⟩
  return tree.withInputs files inputs

def load (files : Files) (registry : Registry) (directory : String) (inputs : VariableInputs) :
    Except Failure ModuleTree := do
  loadFiles files registry directory (← ModuleSite.primaryFiles files directory) inputs

/-! ## What a tree holds -/

/-- The sources that a module calls and that have not been fetched. -/
def missingSources (tree : ModuleTree) : List String :=
  tree.calls.filterMap fun call => call.2.missingSource?

def ownProblems (tree : ModuleTree) : List Problem :=
  tree.calls.filterMap (fun call => call.2.problem? call.1) ++
    (if tree.missingSources.isEmpty then []
      else [.missingRemoteSubmodules tree.site.directory tree.missingSources]) ++
    tree.variableProblems

/-- The called modules by name; of two calls with one name the later one counts. -/
def children (tree : ModuleTree) : Table String ModuleTree :=
  Table.ofList (tree.calls.filterMap fun call =>
    match call.2 with
    | .loaded child => some (call.1.name, child)
    | _ => none)

mutual

/-- The problems of a module and of all modules that it calls, in order of
their names. -/
def problems : ModuleTree → List Problem
  | ⟨site, content, calls, given, variableProblems⟩ =>
      ownProblems ⟨site, content, calls, given, variableProblems⟩ ++
        (Table.ofList (childProblems calls)).values.flatten

def childProblems : List (ModuleCall × CallResult ModuleTree) → List (String × List Problem)
  | [] => []
  | (call, .loaded child) :: rest => (call.name, problems child) :: childProblems rest
  | _ :: rest => childProblems rest

end

mutual

/-- What is said while a module and all modules that it calls are loaded. -/
def warnings : ModuleTree → List String
  | ⟨_, _, calls, _, _⟩ => callWarnings calls

def callWarnings : List (ModuleCall × CallResult ModuleTree) → List String
  | [] => []
  | (_, .loaded child) :: rest => warnings child ++ callWarnings rest
  | (call, result) :: rest => result.warnings call ++ callWarnings rest

end

mutual

/-- The directories of called modules that could not be listed. -/
def unlisted : ModuleTree → List String
  | ⟨_, _, calls, _, _⟩ => callsUnlisted calls

def callsUnlisted : List (ModuleCall × CallResult ModuleTree) → List String
  | [] => []
  | (_, .loaded child) :: rest => unlisted child ++ callsUnlisted rest
  | (_, .failed (.unlisted directory _)) :: rest => directory :: callsUnlisted rest
  | _ :: rest => callsUnlisted rest

end

end ModuleTree

end Groundplan
