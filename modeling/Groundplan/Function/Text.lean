import Groundplan.Function
import Groundplan.Pattern.Reader
import Groundplan.Text.Search
/-!
Functions over texts.
-/

namespace Groundplan.Function

/-- A function of one text with a text as its result. -/
private def ofText (change : String → String) : Function :=
  ofStrings 1 fun texts => .ok (.string (change (texts.headD "")))

private def ofTwoTexts (run : String → String → Datum) : Function :=
  ofStrings 2 fun texts =>
    match texts with
    | [first, second] => .ok (run first second)
    | _ => .ok .null

def upper : Function := ofText Text.upper

def lower : Function := ofText Text.lower

def title : Function := ofText Text.title

def trimSpace : Function := ofText (Text.trimBoth Text.isBlank)

/-- Drop the characters of the second text from both ends of the first. -/
def trim : Function :=
  ofTwoTexts fun text dropped => .string (Text.trimBoth dropped.toList.contains text)

def trimPrefix : Function := ofTwoTexts fun text start => .string (Text.dropStart start text)

def trimSuffix : Function := ofTwoTexts fun text ending => .string (Text.dropEnd ending text)

def startsWith : Function := ofTwoTexts fun text start => .bool (Text.startsWith start text)

def endsWith : Function := ofTwoTexts fun text ending => .bool (Text.endsWith ending text)

def stringContains : Function := ofTwoTexts fun text part => .bool (Text.containsText part text)

/-- The pattern between two slashes, if `search` is written so. -/
private def slashed? (search : String) : Option String :=
  let chars := search.toList
  if chars.length > 1 && chars.head? == some '/' && chars.getLast? == some '/' then
    some (String.ofList ((chars.drop 1).take (chars.length - 2)))
  else none

/-- Replace a text, or the matches of a pattern between slashes. -/
def replaceText (text search replacement : String) : Except CallError String :=
  match slashed? search with
  | none => .ok (Text.replace search replacement text)
  | some written =>
      match Pattern.read? written with
      | some (pattern, names) => .ok (pattern.replaceAll names replacement text)
      | none => .error .badPattern

def replace : Function :=
  ofStrings 3 fun texts =>
    match texts with
    | [text, search, replacement] => (replaceText text search replacement).map .string
    | _ => .ok .null

/-- Where the piece of a text of `size` characters starts and stops. An offset
counts from the end when it is negative, and a negative length takes the rest.
The sums are sums of words. -/
def substringBounds (size offset length : Int) : Int × Int :=
  let start := max 0 (min size (if offset < 0 then saturatingSum size offset else offset))
  let stop := if length < 0 then size else min (saturatingSum start length) size
  (start, stop)

/-- The items from one position up to but not including another, if these are
positions of the list in order. -/
def between? (items : List α) (start stop : Nat) : Option (List α) :=
  if start ≤ stop ∧ stop ≤ items.length then some ((items.drop start).take (stop - start))
  else none

def substring : Function where
  parameters := [.string, .number, .number]
  further := none
  run := fun arguments => do
    let chars := (← stringArgument arguments 0).toList
    let offset ← wholeArgument arguments 1
    let length ← wholeArgument arguments 2
    let (start, stop) := substringBounds chars.length offset length
    match between? chars start.toNat stop.toNat with
    | some piece => return .string (String.ofList piece)
    | none => throw (.sliceOutOfBounds start stop chars.length)

/-- Fill the verbs of a format: `%s` and `%v` take a simple datum, `%d` a whole
number, and `%%` is a percent sign. -/
def fillVerbs : List Char → List Datum → Except CallError (List Char)
  | [], _ => .ok []
  | ['%'], _ => .error .unfinishedVerb
  | '%' :: verb :: rest, values =>
      if verb = '%' then do return '%' :: (← fillVerbs rest values)
      else if verb = 's' || verb = 'd' || verb = 'v' then
        match values with
        | [] => .error (.tooFewValues verb)
        | value :: values =>
            if verb = 'd' && ((value.asNumber?).bind Number.asSigned?).isNone then
              .error (.notWhole value)
            else do
              let shown ← plainText value
              return shown.toList ++ (← fillVerbs rest values)
      else .error (.unknownVerb verb)
  | c :: rest, values => do return c :: (← fillVerbs rest values)

def format : Function where
  parameters := [.string]
  further := some .any
  run := fun arguments => do
    let spec ← stringArgument arguments 0
    return .string (String.ofList (← fillVerbs spec.toList (arguments.drop 1)))

/-- The texts of the items of all lists from an argument on. -/
def joinedTexts (position : Nat) : List Datum → Except CallError (List String)
  | [] => .ok []
  | .list items :: rest => do
      let shown ← items.mapM plainText
      return shown ++ (← joinedTexts (position + 1) rest)
  | _ :: _ => .error (.wrongForm (position + 1) "a list")

def join : Function where
  parameters := [.string]
  further := some .any
  run := fun arguments => do
    let separator ← stringArgument arguments 0
    return .string (separator.intercalate (← joinedTexts 1 (arguments.drop 1)))

def split : Function :=
  ofTwoTexts fun separator text => .list ((Text.split separator text).map .string)

example : substringBounds 3 (-2) 1 = (1, 2) := by decide

end Groundplan.Function
