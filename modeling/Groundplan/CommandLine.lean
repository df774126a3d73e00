import Groundplan.CommandLine.Arguments
import Groundplan.Evaluation.Location
import Groundplan.Evaluation.Records
import Groundplan.Project
/-!
What a call of the program does: it logs, prints and writes files, and may fail
in the end. Files that it writes are there for what it reads afterwards.
-/

namespace Groundplan

inductive LogLevel where
  | error
  | warn
  | info
deriving DecidableEq

def LogLevel.text : LogLevel → String
  | error => "ERROR"
  | warn => "WARN"
  | info => "INFO"

inductive Effect where
  | log (level : LogLevel) (message : String)
  | print (text : String)
  | write (path text : String)
deriving DecidableEq

/-- The files as a call sees them, and what it has done so far. -/
structure CallState where
  files : Files
  effects : List Effect

/-- A part of a call. It fails with what was attempted and, below it, why that
failed. -/
abbrev Activity := ExceptT (List String) (StateM CallState)

namespace Activity

def perform (effect : Effect) : Activity Unit :=
  modify fun state => { state with effects := state.effects ++ [effect] }

def log (level : LogLevel) (message : String) : Activity Unit := perform (.log level message)

def print (text : String) : Activity Unit := perform (.print text)

/-- Say what is attempted if it fails. -/
def during (attempt : String) (activity : Activity α) : Activity α :=
  tryCatch activity fun causes => throw (attempt :: causes)

def write (path text : String) : Activity Unit := do
  let files := (← get).files
  match files.writeFault? path with
  | some fault => throw [fault.message]
  | none =>
      modify fun state => { state with files := files.insert path text }
      perform (.write path text)

def evaluate (root : String) (inputs : VariableInputs) : Activity Evaluation := do
  let (result, warnings) := Evaluation.loadWithWarnings (← get).files root inputs
  warnings.forM (log .warn)
  match result with
  | .ok evaluation => return evaluation
  | .error failure => throw failure.causes

/-- Fail over problems that only a strict call minds. -/
def failIfStrict (isStrict : Bool) (problems : List Problem) : Activity Unit :=
  if isStrict && !problems.isEmpty then
    throw [toString problems.length ++ " error(s) in strict mode"]
  else return

/-- Warn of all problems, and fail over them if the call is strict. -/
def checkProblems (isStrict : Bool) (evaluation : Evaluation) : Activity Unit := do
  let problems := evaluation.problems
  problems.forM fun problem => log .warn problem.message
  failIfStrict isStrict problems

/-- The text of the records that a filter keeps. -/
def render (backend : String) (filter : ResourceFilter) (evaluation : Evaluation) :
    Activity String :=
  match Backend.ofName? backend with
  | some format => return format.render (filter.apply evaluation.records)
  | none => throw [Backend.unknownMessage backend]

/-! ## Commands -/

def validate (isStrict : Bool) (evaluation : Evaluation) : Activity Unit := do
  let problems := evaluation.problems
  problems.forM fun problem => log .error problem.message
  log .info ("Evaluated: " ++ toString evaluation.analysis.modules.length ++ " module(s), " ++
    toString evaluation.analysis.resources.length ++ " resource(s), " ++
    toString evaluation.schedule.order.length ++ " term(s), " ++
    toString problems.length ++ " error(s)")
  failIfStrict isStrict problems

def locate (resource path : String) (evaluation : Evaluation) : Activity Unit := do
  match Accessor.read path with
  | .error error => throw [error.message]
  | .ok accessor =>
      let ranges := evaluation.locate resource accessor
      if ranges.isEmpty then throw ["unknown resource '" ++ resource ++ "'"]
      ranges.forM fun range => print (range.text ++ "\n")

def command (invocation : Invocation) (evaluation : Evaluation) : Activity Unit := do
  match invocation.command.getD .resources with
  | .resources =>
      checkProblems invocation.isStrict evaluation
      print (← render invocation.backend invocation.filter evaluation)
  | .validate => validate invocation.isStrict evaluation
  | .order => evaluation.schedule.order.forM fun name => print (name.text ++ "\n")
  | .locate resource path => locate resource path evaluation

def target (isStrict : Bool) (settings : ProjectSettings) (target : Target) : Activity Unit := do
  log .info ("Running target: " ++ target.name)
  let root := target.directory settings
  let values ← match target.values with
    | .ok values => pure values
    | .error message => throw [message]
  let evaluation ← during ("evaluating module tree at " ++ root)
    (evaluate root ⟨settings.variableFiles ++ target.variableFiles, values⟩)
  checkProblems isStrict evaluation
  let text ← render target.backend target.filter evaluation
  match target.output with
  | some path =>
      write path text
      log .info ("Wrote output to: " ++ path)
  | none => print text

end Activity

namespace Invocation

/-- Whether a call runs the targets of the project file. A command goes before. -/
def runsTargets (invocation : Invocation) : Bool :=
  invocation.usesProject && invocation.command.isNone

def inputs (invocation : Invocation) : VariableInputs :=
  ⟨invocation.variableFiles,
    Table.ofList (invocation.assignments.map fun entry => (entry.1, .string entry.2))⟩

def readProject (files : Files) : Except (List String) Project :=
  if files.exists? Project.fileName then
    match files.read Project.fileName with
    | .error error => .error (("failed to load " ++ Project.fileName) :: error.causes.drop 1)
    | .ok text =>
        match Project.read text with
        | .ok project => .ok project
        | .error error => .error ["failed to load " ++ Project.fileName, error.report text]
  else .error [Project.fileName ++ " not found"]

def targets (invocation : Invocation) (project : Project) : Except (List String) (List Target) :=
  match invocation.target with
  | none => .ok project.targets
  | some name =>
      match project.target? name with
      | some target => .ok [target]
      | none => .error ["target '" ++ name ++ "' not found in " ++ Project.fileName]

def activity (invocation : Invocation) : Activity Unit := do
  if invocation.runsTargets then
    let project ← MonadExcept.ofExcept (readProject (← get).files)
    let targets ← MonadExcept.ofExcept (invocation.targets project)
    targets.forM (Activity.target invocation.isStrict project.settings)
  else
    let evaluation ← Activity.during ("evaluating " ++ invocation.input)
      (Activity.evaluate invocation.input invocation.inputs)
    Activity.command invocation evaluation

/-- Carry out a call: what it has done, and why it failed if it did. -/
def run (invocation : Invocation) (files : Files) : CallState × Option (List String) :=
  match invocation.activity.run ⟨files, []⟩ with
  | (.ok _, state) => (state, none)
  | (.error causes, state) => (state, some causes)

/-! ## Files of a call -/

/-- The paths of the files and directories that a module tree is loaded from, as
far as they are known from the files at hand. -/
def treePaths (files : Files) (root : String) (inputs : VariableInputs) : List String :=
  let called :=
    match ModuleTree.load files (Registry.load files root).1 root inputs with
    | .ok tree => tree.unlisted
    | .error _ => []
  root :: Path.join root Registry.indexPath :: inputs.files ++ called

/-- The paths of the files and directories that a call reads, as far as they are
known from the files at hand. -/
def paths (invocation : Invocation) (files : Files) : List String :=
  if invocation.runsTargets then
    match readProject files with
    | .error _ => [Project.fileName]
    | .ok project =>
        Project.fileName :: project.targets.flatMap fun target =>
          treePaths files (target.directory project.settings)
            ⟨project.settings.variableFiles ++ target.variableFiles, []⟩
  else treePaths files invocation.input invocation.inputs

end Invocation

/-- The lines of a failure: what failed, and why. -/
def failureReport (causes : List String) : String :=
  let blanks (count : Nat) : String := String.ofList (List.replicate count ' ')
  let indent (count : Nat) (text : String) : String :=
    ("\n" ++ blanks count).intercalate (text.splitOn "\n")
  match causes with
  | [] => ""
  | [failure] => "Error: " ++ failure
  | [failure, cause] => "Error: " ++ failure ++ "\n\nCaused by:\n    " ++ indent 4 cause
  | failure :: reasons =>
      "Error: " ++ failure ++ "\n\nCaused by:" ++ String.join (reasons.zipIdx.map fun reason =>
        "\n    " ++ toString reason.2 ++ ": " ++ indent 7 reason.1)

end Groundplan
