import Groundplan.Text.Classes
/-!
Searching and splitting of texts. A text is split where the separator occurs,
from left to right and without overlaps; an empty separator stands around every
character.
-/

namespace Groundplan.Text

/-- Split where `separator` occurs. `skipped` counts the characters of an
occurrence that are still ahead, and `pending` holds the current piece in
reverse. -/
def splitIn (separator : List Char) (skipped : Nat) (pending : List Char) :
    List Char → List (List Char)
  | [] => [pending.reverse]
  | c :: rest =>
      match skipped with
      | more + 1 => splitIn separator more pending rest
      | 0 =>
          if separator.isPrefixOf (c :: rest) then
            pending.reverse :: splitIn separator (separator.length - 1) [] rest
          else splitIn separator 0 (c :: pending) rest

/-- The pieces of a list of characters between the occurrences of `separator`. -/
def splitChars (separator text : List Char) : List (List Char) :=
  if separator.isEmpty then [] :: text.map (fun c => [c]) ++ [[]]
  else splitIn separator 0 [] text

def split (separator text : String) : List String :=
  (splitChars separator.toList text.toList).map String.ofList

def replace (search replacement text : String) : String :=
  replacement.intercalate (split search text)

def startsWith (start text : String) : Bool := start.toList.isPrefixOf text.toList

def endsWith (ending text : String) : Bool := ending.toList.isSuffixOf text.toList

def occursIn (part : List Char) : List Char → Bool
  | [] => part.isEmpty
  | c :: rest => part.isPrefixOf (c :: rest) || occursIn part rest

def containsText (part text : String) : Bool := occursIn part.toList text.toList

/-- Drop the characters of a class from both ends. -/
def trimBoth (isDropped : Char → Bool) (text : String) : String :=
  String.ofList ((text.toList.dropWhile isDropped).reverse.dropWhile isDropped).reverse

def dropStart (start text : String) : String :=
  if startsWith start text then String.ofList (text.toList.drop start.length) else text

def dropEnd (ending text : String) : String :=
  if endsWith ending text then
    String.ofList (text.toList.take (text.length - ending.length))
  else text

example : splitChars [','] ['a', ',', 'b'] = [['a'], ['b']] := by decide

example : splitChars [] ['a', 'b'] = [[], ['a'], ['b'], []] := by decide

end Groundplan.Text
