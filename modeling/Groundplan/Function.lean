import Groundplan.Datum
/-!
Functions that expressions can call. A function states what it takes; a call
checks that before the function runs.
-/

namespace Groundplan

inductive ParameterKind where
  | any
  | string
  | number
  | list
deriving DecidableEq

namespace ParameterKind

def text : ParameterKind → String
  | any => "any"
  | string => "string"
  | number => "number"
  | list => "array(`any`)"

def accepts : ParameterKind → Datum → Bool
  | any, _ => true
  | string, .string _ => true
  | number, .number _ => true
  | list, .list _ => true
  | _, _ => false

end ParameterKind

inductive CallError where
  | wrongCount (expected given : Nat)
  | wrongArgument (position : Nat) (expected : ParameterKind) (given : Datum)
  | wrongExtraArgument (position : Nat) (expected : ParameterKind) (given : Datum)
  /-- An argument, counted from one, that is not of the named form. -/
  | wrongForm (argument : Nat) (form : String)
  | noConversion (kind target : String)
  | noNumber (text : String)
  | noBool (given : Datum)
  | notFinite (value : Binary64)
  | noLength (kind : String)
  | missingKey (key : String)
  | noObjectToMerge (kind : String)
  | elementOfEmptyList
  | negativeElement
  | sliceOutOfBounds (first last : Int) (length : Nat)
  | unequalLengths
  | noKeyString (kind : String)
  | tooFewValues (verb : Char)
  | notWhole (given : Datum)
  | unknownVerb (verb : Char)
  | unfinishedVerb
  | badBase64
  | badEncoding
  | badPattern

def CallError.message : CallError → String
  | wrongCount expected given =>
      "expected " ++ toString expected ++ " positional arguments, got " ++ toString given
  | wrongArgument position expected given =>
      "expected argument at position " ++ toString position ++ " to be of type `" ++
        expected.text ++ "`, got `" ++ given.text ++ "`"
  | wrongExtraArgument position expected given =>
      "expected variadic argument at position " ++ toString position ++ " to be of type `" ++
        expected.text ++ "`, got `" ++ given.text ++ "`"
  | wrongForm argument form => "argument " ++ toString argument ++ " must be " ++ form
  | noConversion kind target => "cannot convert " ++ kind ++ " to " ++ target
  | noNumber text => "cannot convert \"" ++ text ++ "\" to number"
  | noBool given => "cannot convert " ++ given.text ++ " to bool"
  | notFinite value => value.text ⟨false⟩ ++ " is not a finite number"
  | noLength kind => "cannot take the length of " ++ kind
  | missingKey key => "lookup failed to find key \"" ++ key ++ "\""
  | noObjectToMerge kind => "merge expects objects, got " ++ kind
  | elementOfEmptyList => "cannot use element function with an empty list"
  | negativeElement => "element index must not be negative"
  | sliceOutOfBounds first last length =>
      "invalid slice bounds " ++ toString first ++ ".." ++ toString last ++ " for length " ++
        toString length
  | unequalLengths => "zipmap needs lists of the same length"
  | noKeyString kind => "zipmap keys must be strings, got " ++ kind
  | tooFewValues verb => "not enough arguments for %" ++ verb.toString
  | notWhole given => "%d requires a whole number, got " ++ given.text
  | unknownVerb verb => "unsupported format verb %" ++ verb.toString
  | unfinishedVerb => "format string ends with %"
  | badBase64 => "Invalid base64 string"
  | badEncoding => "Invalid UTF-8 in decoded data"
  | badPattern => "regex parse error"

/-- A function with what it takes: a kind for each parameter, and one for any
further arguments if it takes them. -/
structure Function where
  parameters : List ParameterKind
  further : Option ParameterKind
  run : List Datum → Except CallError Datum

namespace Function

/-- Whether the arguments from `position` on are of the kinds they have to be. -/
def check (function : Function) (position : Nat) :
    List ParameterKind → List Datum → Except CallError Unit
  | kind :: kinds, argument :: rest =>
      if kind.accepts argument then check function (position + 1) kinds rest
      else .error (.wrongArgument position kind argument)
  | [], argument :: rest =>
      match function.further with
      | some kind =>
          if kind.accepts argument then check function (position + 1) [] rest
          else .error (.wrongExtraArgument position kind argument)
      | none => .ok ()
  | _, [] => .ok ()

def call (function : Function) (arguments : List Datum) : Except CallError Datum := do
  let expected := function.parameters.length
  let given := arguments.length
  if given < expected || (function.further.isNone && expected < given) then
    .error (.wrongCount expected given)
  function.check 0 function.parameters arguments
  function.run arguments

/-! ## Arguments -/

/-- The argument at a position; a missing one is null. -/
def argument (arguments : List Datum) (position : Nat) : Datum := (arguments[position]?).getD .null

def stringArgument (arguments : List Datum) (position : Nat) : Except CallError String :=
  match argument arguments position with
  | .string value => .ok value
  | _ => .error (.wrongForm (position + 1) "a string")

/-- A whole number of 64 bits with a sign. -/
def wholeArgument (arguments : List Datum) (position : Nat) : Except CallError Int :=
  match ((argument arguments position).asNumber?).bind Number.asSigned? with
  | some value => .ok value
  | none => .error (.wrongForm (position + 1) "a whole number")

def listArgument (arguments : List Datum) (position : Nat) : Except CallError (List Datum) :=
  match argument arguments position with
  | .list items => .ok items
  | _ => .error (.wrongForm (position + 1) "a list")

def objectArgument (arguments : List Datum) (position : Nat) :
    Except CallError (List (String × Datum)) :=
  match argument arguments position with
  | .object fields => .ok fields
  | _ => .error (.wrongForm (position + 1) "an object")

/-- The text of a simple datum; null is empty. -/
def plainText : Datum → Except CallError String
  | .string value => .ok value
  | .number value => .ok value.text
  | .bool value => .ok (if value then "true" else "false")
  | .null => .ok ""
  | other => .error (.noConversion other.kind "string")

/-- A function of strings only. -/
def ofStrings (count : Nat) (run : List String → Except CallError Datum) : Function where
  parameters := List.replicate count .string
  further := none
  run := fun arguments => do
    run (← (List.range count).mapM (stringArgument arguments))

end Function

end Groundplan
