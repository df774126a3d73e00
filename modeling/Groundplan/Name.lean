import Groundplan.Numeric.Power
/-!
Names of everything that is evaluated. A full name pairs the chain of module
calls that leads to a module with the path of an object inside that module. An
accessor mixes keys and indexes and reaches into values and source bodies.
-/

namespace Groundplan

inductive Segment where
  | key (name : String)
  | index (position : Nat)
deriving DecidableEq, BEq

namespace Segment

def asKey? : Segment → Option String
  | key name => some name
  | index _ => none

def isKey : Segment → Bool
  | key _ => true
  | index _ => false

end Segment

/-- The chain of module calls that leads to a module; empty for the root. -/
abbrev ModuleName := List String

abbrev LocalName := List String

abbrev Accessor := List Segment

inductive NameError where
  /-- An index of 64 bits or more. -/
  | indexTooLarge (text : String)
  /-- A bracket that does not enclose digits. -/
  | badIndex (text : String)
  /-- A dot without a key after it. -/
  | malformed (text : String)
  /-- An index where only keys may stand. -/
  | unexpectedIndex (text : String)
deriving DecidableEq

def NameError.message : NameError → String
  | .indexTooLarge text =>
      "bad index in accessor '" ++ text ++ "': number too large to fit in target type"
  | .badIndex text => "unmatched or non-numeric index in accessor '" ++ text ++ "'"
  | .malformed text => "malformed accessor '" ++ text ++ "'"
  | .unexpectedIndex text => "'" ++ text ++ "' is not a valid name: unexpected index"

namespace Accessor

/-- The longest start of `text` that is a key: everything before a dot or an
opening bracket. -/
def spanKey (text : List Char) : List Char × List Char :=
  (text.takeWhile fun c => c != '.' && c != '[',
    text.dropWhile fun c => c != '.' && c != '[')

/-- The digits of an index and the text after its closing bracket. -/
def spanIndex? (text : List Char) : Option (List Char × List Char) :=
  let digits := text.takeWhile Char.isDigit
  match digits, text.dropWhile Char.isDigit with
  | _ :: _, ']' :: rest => some (digits, rest)
  | _, _ => none

private theorem spanIndex?_length {text digits rest : List Char}
    (found : spanIndex? text = some (digits, rest)) : rest.length < text.length := by
  unfold spanIndex? at found
  simp only at found
  split at found
  · next first others tail atDigits atRest =>
      have whole := congrArg List.length
        (List.takeWhile_append_dropWhile (p := Char.isDigit) (l := text))
      rw [List.length_append, atRest] at whole
      simp only [Option.some.injEq, Prod.mk.injEq] at found
      obtain ⟨_, same⟩ := found
      subst same
      simp only [List.length_cons] at whole
      omega
  · simp at found

private theorem spanKey_length {text key rest : List Char}
    (found : spanKey text = (key, rest)) : rest.length + key.length = text.length := by
  unfold spanKey at found
  simp only [Prod.mk.injEq] at found
  obtain ⟨atKey, atRest⟩ := found
  have whole := congrArg List.length (List.takeWhile_append_dropWhile
    (p := fun c : Char => c != '.' && c != '[') (l := text))
  rw [List.length_append, atKey, atRest] at whole
  omega

def digitsValue (digits : List Char) : Nat :=
  digits.foldl (fun total digit => 10 * total + (digit.toNat - '0'.toNat)) 0

/-- A key at the start of `text`, which may follow a dot. -/
def dropDot : List Char → List Char
  | '.' :: rest => rest
  | text => text

private theorem dropDot_length (text : List Char) : (dropDot text).length ≤ text.length := by
  unfold dropDot
  split <;> simp

private theorem keyRest_length {text keyRest after : List Char} {keyFirst : Char}
    (found : spanKey (dropDot text) = (keyFirst :: keyRest, after)) :
    after.length < text.length := by
  have atKey := spanKey_length found
  have atDot := dropDot_length text
  simp only [List.length_cons] at atKey
  omega

/-- Read the segments of `text`; `whole` is the text that errors show. -/
def segments (whole : String) (text : List Char) : Except NameError Accessor :=
  match text with
  | [] => .ok []
  | '[' :: rest =>
      match found : spanIndex? rest with
      | none => .error (.badIndex whole)
      | some (digits, after) =>
          have : after.length < rest.length := spanIndex?_length found
          let position := digitsValue digits
          if position < wordCount then do
            return .index position :: (← segments whole after)
          else .error (.indexTooLarge whole)
  | first :: rest =>
      match found : spanKey (dropDot (first :: rest)) with
      | ([], _) => .error (.malformed whole)
      | (keyFirst :: keyRest, after) => do
          have : after.length < (first :: rest).length := keyRest_length found
          return .key (String.ofList (keyFirst :: keyRest)) :: (← segments whole after)
termination_by text.length
decreasing_by
  · simp only [List.length_cons]
    omega
  · assumption

/-- Read an accessor: keys separated by dots, and indexes in brackets. -/
def read (text : String) : Except NameError Accessor := segments text text.toList

/-- The text of a segment, which is the first one or follows others. -/
def segmentText (first : Bool) : Segment → String
  | .key name => if first then name else "." ++ name
  | .index position => "[" ++ toString position ++ "]"

def text : Accessor → String
  | [] => ""
  | first :: rest => segmentText true first ++ String.join (rest.map (segmentText false))

def ofLocal (name : LocalName) : Accessor := name.map .key

/-- The leading keys, and what follows them. -/
def splitKeys (accessor : Accessor) : LocalName × Accessor :=
  ((accessor.takeWhile Segment.isKey).filterMap Segment.asKey?,
    accessor.dropWhile Segment.isKey)

end Accessor

/-- The text `module.a.module.b` for the chain `a`, `b`. -/
def ModuleName.text (name : ModuleName) : String :=
  ".".intercalate (name.map fun part => "module." ++ part)

def LocalName.text (name : LocalName) : String := ".".intercalate name

/-- A module and the path of an object in it. -/
structure FullName where
  module : ModuleName
  path : LocalName
deriving DecidableEq

namespace FullName

/-- Full names are ordered by module and then by path. -/
instance : Ord FullName where
  compare left right :=
    (compare left.module right.module).then (compare left.path right.path)

/-- Take the leading pairs of the key `module` and a call name off an accessor. -/
def splitModule : Accessor → ModuleName × Accessor
  | .key "module" :: .key name :: rest =>
      let (chain, remaining) := splitModule rest
      (name :: chain, remaining)
  | accessor => ([], accessor)

/-- The name that `accessor` has when it is read in `module`: leading module
calls lead to a nested module, and the rest has to be keys. -/
def ofAccessor (module : ModuleName) (accessor : Accessor) : Except NameError FullName :=
  let (chain, rest) := splitModule accessor
  if rest.all Segment.isKey then
    .ok ⟨module ++ chain, rest.filterMap Segment.asKey?⟩
  else .error (.unexpectedIndex accessor.text)

def read (text : String) : Except NameError FullName := do
  ofAccessor [] (← Accessor.read text)

/-- The text of a full name; an empty part leaves no dot. -/
def text (name : FullName) : String :=
  let module := name.module.text
  let path := name.path.text
  if module.isEmpty then path
  else if path.isEmpty then module
  else module ++ "." ++ path

def toAccessor (name : FullName) : Accessor := Accessor.ofLocal name.path

/-- A reference to `module.X.Y` is the output `Y` of the module called `X`. -/
def asModuleOutput? (name : FullName) : Option FullName :=
  match name.path with
  | "module" :: call :: first :: rest =>
      some ⟨name.module ++ [call], "output" :: first :: rest⟩
  | _ => none

/-- A variable of a called module is an input of that call in the calling
module. The root module has no caller. -/
def asModuleInput? (name : FullName) : Option FullName :=
  match name.path, name.module.getLast? with
  | "var" :: first :: rest, some call =>
      some ⟨name.module.dropLast, "input" :: call :: first :: rest⟩
  | _, _ => none

/-- The parts of a reference to a variable. -/
structure VariableParts where
  definition : FullName
  reference : FullName
  trailing : LocalName

/-- Split `var.Y...` into the definition `variable.Y`, the reference `var.Y`
and what trails it. -/
def asVariable? (name : FullName) : Option VariableParts :=
  match name.path with
  | "var" :: declared :: trailing =>
      some ⟨⟨name.module, ["variable", declared]⟩, ⟨name.module, ["var", declared]⟩, trailing⟩
  | _ => none

/-- The first keys that never name a resource. -/
def nonResourceHeads : List String :=
  ["var", "local", "module", "count", "each", "path", "terraform", "self", "input", "output",
    "variable", "provider"]

/-- Split a name into the resource it belongs to and the path of an attribute. -/
def asResource? (name : FullName) : Option (FullName × LocalName) :=
  match name.path with
  | [] => none
  | head :: _ =>
      let width := if head = "data" then 3 else 2
      if nonResourceHeads.contains head || name.path.length < width then none
      else some (⟨name.module, name.path.take width⟩, name.path.drop width)

/-- A name of a provider without dots: a dot becomes an underscore, and an
underscore is doubled. -/
def escapeProvider (name : String) : String :=
  String.ofList (name.toList.flatMap fun c =>
    if c = '_' then ['_', '_'] else if c = '.' then ['_'] else [c])

/-- The name of the term that holds the configuration of a provider. -/
def providerConfig (module : ModuleName) (provider : String) : FullName :=
  ⟨module, ["provider", escapeProvider provider]⟩

end FullName

end Groundplan
