import Groundplan.Resource
/-!
Arguments of the command line. Options stand before the command; an option that
takes one value can be given once.
-/

namespace Groundplan

inductive Command where
  | resources
  | validate
  | order
  | locate (resource path : String)
deriving DecidableEq

structure Invocation where
  input : String
  assignments : List (String × String)
  variableFiles : List String
  backend : String
  filter : ResourceFilter
  usesProject : Bool
  target : Option String
  isStrict : Bool
  command : Option Command

inductive UsageError where
  /-- An explanation is asked for. -/
  | help
  | wrong (argument : String)
deriving DecidableEq

namespace Invocation

def standard : Invocation := ⟨".", [], [], "json", ⟨[], []⟩, false, none, false, none⟩

def usage : String := "Static evaluation of Terraform module trees into resource records

Usage: hclscan [OPTIONS] [COMMAND]

Commands:
  resources  Evaluate and render resource records
  validate   Evaluate and report every non-fatal error
  order      Print the term evaluation order
  locate     Print where a resource attribute is declared
  help       Print this message or the help of the given subcommand(s)

Options:
      --input <INPUT>                Root module directory [default: .]
      --var <VAR>                    Set a variable: --var key=value (repeatable)
      --var-file <VAR_FILE>          Load variables from a .tfvars or .tfvars.json file. Can repeat
      --backend <BACKEND>            Backend to use: json|ids (ignored if using config file) [default: json]
      --include <INCLUDE_RESOURCES>  Include only these resource types (repeatable, `aws_s3_*` matches by prefix)
      --exclude <EXCLUDE_RESOURCES>  Exclude these resource types (repeatable)
      --config                       Use hclscan.toml configuration file
      --target <TARGET>              Target name to run (when using config file)
      --strict                       Enable strict mode (non-fatal errors fail the run)
  -h, --help                         Print help
"

/-! ## Options -/

/-- A name and the value after the first equals sign. -/
def splitAssignment? (text : String) : Option (String × String) :=
  let chars := text.toList
  match chars.dropWhile (· != '=') with
  | _ :: value => some (String.ofList (chars.takeWhile (· != '=')), String.ofList value)
  | [] => none

/-- Options that can be given several times. -/
private def repeatable : List String := ["--var", "--var-file", "--include", "--exclude"]

private def flags : List String := ["--config", "--strict"]

private def valued : List String := repeatable ++ ["--input", "--backend", "--target"]

private def setValue (option value : String) (invocation : Invocation) : Option Invocation :=
  match option with
  | "--input" => if value.isEmpty then none else some { invocation with input := value }
  | "--var" => (splitAssignment? value).map fun entry =>
      { invocation with assignments := invocation.assignments ++ [entry] }
  | "--var-file" =>
      if value.isEmpty then none
      else some { invocation with variableFiles := invocation.variableFiles ++ [value] }
  | "--backend" => some { invocation with backend := value }
  | "--include" => some { invocation with
      filter := { invocation.filter with includes := invocation.filter.includes ++ [value] } }
  | "--exclude" => some { invocation with
      filter := { invocation.filter with excludes := invocation.filter.excludes ++ [value] } }
  | "--target" => some { invocation with target := some value }
  | _ => none

private def setFlag (option : String) (invocation : Invocation) : Invocation :=
  if option = "--config" then { invocation with usesProject := true }
  else { invocation with isStrict := true }

private def isDashed (argument : String) : Bool :=
  argument.toList.head? == some '-' && argument != "-"

/-! ## Commands -/

/-- The arguments of a command that are no options. A double dash makes all that
follow it such arguments. -/
private def positional : List String → Except UsageError (List String)
  | [] => .ok []
  | argument :: rest =>
      if argument = "--" then .ok rest
      else if argument = "--help" || argument = "-h" then .error .help
      else if isDashed argument then .error (.wrong argument)
      else do return argument :: (← positional rest)

private def readCommand (name : String) (arguments : List String) : Except UsageError Command := do
  match name, ← positional arguments with
  | "resources", [] => return .resources
  | "validate", [] => return .validate
  | "order", [] => return .order
  | "locate", [resource] => return .locate resource ""
  | "locate", [resource, path] => return .locate resource path
  | "help", [] => .error .help
  | "help", [topic] =>
      if ["resources", "validate", "order", "locate", "help"].contains topic then .error .help
      else .error (.wrong topic)
  | _, _ => .error (.wrong name)

/-- Read the arguments after the options in `given`, which have set `invocation`. -/
private def readFrom (given : List String) (invocation : Invocation) :
    List String → Except UsageError Invocation
  | [] => .ok invocation
  | argument :: rest =>
      if argument = "--help" || argument = "-h" then .error .help
      else if argument = "--" then
        match rest with
        | [] => .ok invocation
        | extra :: _ => .error (.wrong extra)
      else if isDashed argument then
        let (option, inline) :=
          match splitAssignment? argument with
          | some (option, value) => (option, some value)
          | none => (argument, none)
        if given.contains option && !repeatable.contains option then .error (.wrong argument)
        else if flags.contains option && inline.isNone then
          readFrom (option :: given) (setFlag option invocation) rest
        else if valued.contains option then
          match inline, rest with
          | some value, rest =>
              match setValue option value invocation with
              | some invocation => readFrom (option :: given) invocation rest
              | none => .error (.wrong argument)
          | none, value :: rest =>
              match isDashed value, setValue option value invocation with
              | false, some invocation => readFrom (option :: given) invocation rest
              | _, _ => .error (.wrong argument)
          | none, [] => .error (.wrong argument)
        else .error (.wrong argument)
      else do return { invocation with command := some (← readCommand argument rest) }

def read (arguments : List String) : Except UsageError Invocation :=
  readFrom [] standard arguments

end Invocation

end Groundplan
