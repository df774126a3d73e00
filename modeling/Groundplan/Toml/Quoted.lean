import Groundplan.Toml
/-!
Quoted strings of TOML: basic ones with escapes, literal ones without, each on
one line or, between three quotes, on many.
-/

namespace Groundplan.Toml

/-- A fault found by a reader: the number of characters that were left where it
begins and where it ends. -/
structure Fault where
  left : Nat
  leftAfter : Nat
  message : String

/-- A fault at the start of `text`, without any width. -/
def Fault.before (text : List Char) (message : String) : Fault :=
  ⟨text.length, text.length, message⟩

def Fault.between (text rest : List Char) (message : String) : Fault :=
  ⟨text.length, rest.length, message⟩

/-- Characters that no string and no comment holds. -/
def isForbidden (c : Char) : Bool := (c.toNat < 0x20 && c != '\t') || c.toNat == 0x7f

private def hexDigit? (c : Char) : Option Nat :=
  if c.isDigit then some (c.toNat - '0'.toNat)
  else if 'a' ≤ c && c ≤ 'f' then some (c.toNat - 'a'.toNat + 10)
  else if 'A' ≤ c && c ≤ 'F' then some (c.toNat - 'A'.toNat + 10)
  else none

/-- The character whose number is written by the first `width` characters. -/
private def numbered? (width : Nat) (text : List Char) : Option (Char × List Char) := do
  let digits ← (text.take width).mapM hexDigit?
  let code := digits.foldl (fun total digit => 16 * total + digit) 0
  if digits.length = width && (Nat.isValidChar code) then
    some (Char.ofNat code, text.drop width)
  else none

def readEscape? : List Char → Option (Char × List Char)
  | 'b' :: rest => some ('\x08', rest)
  | 't' :: rest => some ('\t', rest)
  | 'n' :: rest => some ('\n', rest)
  | 'f' :: rest => some ('\x0c', rest)
  | 'r' :: rest => some ('\r', rest)
  | 'e' :: rest => some ('\x1b', rest)
  | '"' :: rest => some ('"', rest)
  | '\\' :: rest => some ('\\', rest)
  | 'x' :: rest => numbered? 2 rest
  | 'u' :: rest => numbered? 4 rest
  | 'U' :: rest => numbered? 8 rest
  | _ => none

private def badEscape : String :=
  "missing escaped value, expected `b`, `f`, `n`, `r`, `\\`, `\"`, `u`, `U`"

/-- The characters of a basic string up to its closing quote; `taken` holds
those before in reverse. -/
private def readBasic : Nat → List Char → List Char → Except Fault (String × List Char)
  | 0, _, text => .error (.before text "invalid basic string")
  | fuel + 1, taken, text =>
      match text with
      | '"' :: rest => .ok (String.ofList taken.reverse, rest)
      | '\\' :: rest =>
          match readEscape? rest with
          | some (c, rest) => readBasic fuel (c :: taken) rest
          | none => .error (.before rest badEscape)
      | c :: rest =>
          if isForbidden c then .error (.before text "invalid basic string")
          else readBasic fuel (c :: taken) rest
      | [] => .error (.before text "invalid basic string, expected `\"`")

private def readLiteral : List Char → List Char → Except Fault (String × List Char)
  | _, [] => .error (.before [] "invalid literal string, expected `'`")
  | taken, c :: rest =>
      if c = '\'' then .ok (String.ofList taken.reverse, rest)
      else if isForbidden c then .error (.before (c :: rest) "invalid literal string")
      else readLiteral (c :: taken) rest

/-- Blanks up to the end of a line, that line end and all blanks after it. -/
private def skipContinuation? (text : List Char) : Option (List Char) :=
  let isBlank (c : Char) : Bool := c == ' ' || c == '\t'
  match text.dropWhile isBlank with
  | '\n' :: rest => some (rest.dropWhile fun c => isBlank c || c == '\n' || c == '\r')
  | '\r' :: '\n' :: rest => some (rest.dropWhile fun c => isBlank c || c == '\n' || c == '\r')
  | _ => none

/-- Up to two quotes of a run that closes a string on many lines belong to it. -/
private def closing? (quote : Char) (text : List Char) : Option (List Char × List Char) :=
  let run := (text.takeWhile (· == quote)).length
  if 3 ≤ run then
    let inside := min (run - 3) 2
    some (List.replicate inside quote, text.drop (inside + 3))
  else none

/-- The characters of a string on many lines, with escapes if it is basic. -/
private def readLines (quote : Char) :
    Nat → List Char → List Char → Except Fault (String × List Char)
  | 0, _, text => .error (.before text "invalid multi-line string")
  | fuel + 1, taken, text =>
      match closing? quote text with
      | some (inside, rest) => .ok (String.ofList (taken.reverse ++ inside), rest)
      | none =>
          match text with
          | [] => .error (.before text "invalid multi-line string")
          | '\r' :: '\n' :: rest => readLines quote fuel ('\n' :: taken) rest
          | c :: rest =>
              if c = '\\' && quote = '"' then
                match skipContinuation? rest with
                | some rest => readLines quote fuel taken rest
                | none =>
                    match readEscape? rest with
                    | some (c, rest) => readLines quote fuel (c :: taken) rest
                    | none => .error (.before rest badEscape)
              else if isForbidden c && c != '\n' then
                .error (.before text "invalid multi-line string")
              else readLines quote fuel (c :: taken) rest

private def dropLineBreak : List Char → List Char
  | '\n' :: rest => rest
  | '\r' :: '\n' :: rest => rest
  | text => text

/-- A string on one line, from its opening quote on. -/
def readQuotedLine? : List Char → Option (Except Fault (String × List Char))
  | '"' :: rest => some (readBasic (rest.length + 1) [] rest)
  | '\'' :: rest => some (readLiteral [] rest)
  | _ => none

/-- A string, from its opening quote or quotes on. -/
def readQuoted? : List Char → Option (Except Fault (String × List Char))
  | '"' :: '"' :: '"' :: rest => some (readLines '"' (rest.length + 1) [] (dropLineBreak rest))
  | '\'' :: '\'' :: '\'' :: rest =>
      some (readLines '\'' (rest.length + 1) [] (dropLineBreak rest))
  | text => readQuotedLine? text

end Groundplan.Toml
