import Groundplan.Body
import Groundplan.Numeric.Decimal
import Groundplan.Value
/-!
TOML documents. Every item knows the part of the text that it was written in.
-/

namespace Groundplan

/-- Something together with where it is written; spans count characters. -/
structure Located (α : Type) where
  span : Span
  item : α

/-- An item of a TOML document. The fields of a table are a `Table`. -/
inductive Toml where
  | string (value : String)
  | integer (value : Int)
  | float (value : Binary64)
  | bool (value : Bool)
  | dateTime (text : String)
  | array (items : List (Located Toml))
  | table (fields : List (String × Located Toml))

/-- Why a text is no document, or no document of the wanted form. -/
structure TomlError where
  span : Span
  message : String
deriving DecidableEq

namespace TomlError

/-- The lines of a text, each with the number of characters before it. -/
private def lineStarts (start : Nat) : List (List Char) → List (Nat × List Char)
  | [] => []
  | line :: rest => (start, line) :: lineStarts (start + line.length + 1) rest

private def splitLines : List Char → List (List Char)
  | [] => [[]]
  | c :: rest =>
      if c = '\n' then [] :: splitLines rest
      else
        match splitLines rest with
        | [] => [[c]]
        | line :: others => (c :: line) :: others

/-- The report of an error: the line it is on, the marked part and the message. -/
def report (text : String) (error : TomlError) : String :=
  let lines := (lineStarts 0 (splitLines text.toList)).zipIdx
  match (lines.filter fun line => line.1.1 ≤ error.span.start).getLast? with
  | none => error.message ++ "\n"
  | some ((start, line), position) =>
      let column := error.span.start - start
      let number := toString (position + 1)
      let gutter := String.ofList (List.replicate (number.length + 1) ' ') ++ "|"
      let width := min (error.span.stop - error.span.start) (line.length - column)
      let blanks := String.ofList (List.replicate (column + 1) ' ')
      let marks := String.ofList (List.replicate (max width 1) '^')
      "TOML parse error at line " ++ number ++ ", column " ++ toString (column + 1) ++ "\n" ++
        gutter ++ "\n" ++ number ++ " | " ++ String.ofList line ++ "\n" ++
        gutter ++ blanks ++ marks ++ "\n" ++ error.message ++ "\n"

example : report "bad =" ⟨⟨5, 5⟩, "no value"⟩ =
    "TOML parse error at line 1, column 6\n  |\n1 | bad =\n  |      ^\nno value\n" := by
  decide +kernel

end TomlError

namespace Toml

/-- What is said about a number that no value can be. -/
def invalidFloat (number : Binary64) : String := "invalid float " ++ number.text ⟨false⟩

mutual

/-- The value of an item. Infinities and non-numbers have none. -/
def toValue : Toml → Except String Value
  | string value => .ok (.string value)
  | integer value => .ok (.number (.integer value))
  | float value =>
      if value.isFinite then .ok (.number (.ofBinary value)) else .error (invalidFloat value)
  | bool value => .ok (.bool value)
  | dateTime text => .ok (.string text)
  | array items => do return .list (← toValueItems items)
  | table fields => do return .object (← toValueFields fields)

def toValueItems : List (Located Toml) → Except String (List Value)
  | [] => .ok []
  | ⟨_, item⟩ :: rest => do return (← toValue item) :: (← toValueItems rest)

def toValueFields : List (String × Located Toml) → Except String (List (String × Value))
  | [] => .ok []
  | (key, ⟨_, item⟩) :: rest => do return (key, ← toValue item) :: (← toValueFields rest)

end

end Toml

end Groundplan
