import Groundplan.Json
/-!
Reading of JSON documents. A document may nest 127 levels deep. A number
becomes an integer when it is written as one and fits 64 bits; any other number
is its leading digits scaled by the binary fraction nearest to a power of ten,
which is not always the nearest fraction to the number itself.
-/

namespace Groundplan.Json

private def isBlank (c : Char) : Bool := c == ' ' || c == '\t' || c == '\n' || c == '\r'

private def skipBlanks (text : List Char) : List Char := text.dropWhile isBlank

/-! ## Numbers -/

/-- Scale `digits` by `10 ^ power` in binary fractions; a number that is too
large has no value. -/
def scale? (digits : Nat) (power : Int) : Option Binary64 :=
  let start := Binary64.ofInt digits
  let tens (exponent : Nat) := Binary64.ofDecimal 1 exponent
  let scaled :=
    match power with
    | .ofNat exponent =>
        if digits = 0 then start
        else if exponent > 308 then .infinite false
        else start.mul (tens exponent)
    | .negSucc exponent =>
        let exponent := exponent + 1
        if exponent ≤ 308 then start.div (tens exponent)
        else if exponent ≤ 616 then (start.div (tens 308)).div (tens (exponent - 308))
        else if exponent ≤ 924 then
          ((start.div (tens 308)).div (tens 308)).div (tens (exponent - 616))
        else Binary64.zero
  if scaled.isFinite then some scaled else none

/-- Take digits into `total` as long as the result fits 64 bits. Returns the
total, the number of digits taken and the number of digits left over. -/
private def takeDigits (total : Nat) : List Char → Nat × Nat × Nat
  | [] => (total, 0, 0)
  | digit :: rest =>
      let next := 10 * total + (digit.toNat - '0'.toNat)
      if next < wordCount then
        let (final, taken, left) := takeDigits next rest
        (final, taken + 1, left)
      else (total, 0, rest.length + 1)

private def spanDigits (text : List Char) : List Char × List Char :=
  (text.takeWhile Char.isDigit, text.dropWhile Char.isDigit)

/-- An exponent part, if there is one. The outer option is none for an exponent
without digits. -/
private def exponentPart (text : List Char) : Option (Option Int × List Char) :=
  match text with
  | mark :: rest =>
      if mark = 'e' || mark = 'E' then
        let (negative, rest) := Decimal.spanSign rest
        match spanDigits rest with
        | ([], _) => none
        | (digits, rest) =>
            let size : Int := Decimal.ofDigits digits
            some (some (if negative then -size else size), rest)
      else some (none, text)
  | [] => some (none, [])

/-- A fraction part, if there is one. The outer option is none for a point
without digits. -/
private def fractionPart (text : List Char) : Option (Option (List Char) × List Char) :=
  match text with
  | '.' :: rest =>
      match spanDigits rest with
      | ([], _) => none
      | (digits, rest) => some (some digits, rest)
  | text => some (none, text)

def readNumber (text : List Char) : Option (Number × List Char) := do
  let (negative, text) :=
    match text with
    | '-' :: rest => (true, rest)
    | text => (false, text)
  let (whole, text) := spanDigits text
  if whole.isEmpty || (whole.head? == some '0' && whole.length > 1) then none
  let (fraction, text) ← fractionPart text
  let (exponent, text) ← exponentPart text
  let (digits, _, wholeLeft) := takeDigits 0 whole
  if fraction.isNone && exponent.isNone && wholeLeft = 0 &&
      (!negative || (0 < digits && digits ≤ signedLimit)) then
    return (.integer (if negative then -(digits : Int) else digits), text)
  else
    let (digits, taken, _) := takeDigits digits (fraction.getD [])
    let power : Int := (wholeLeft : Int) - (taken : Int) + exponent.getD 0
    let size ← scale? digits power
    return (.binary (if negative then size.neg else size), text)

/-! ## Strings -/

private def hexValue? (c : Char) : Option Nat :=
  if c.isDigit then some (c.toNat - '0'.toNat)
  else if 'a' ≤ c && c ≤ 'f' then some (c.toNat - 'a'.toNat + 10)
  else if 'A' ≤ c && c ≤ 'F' then some (c.toNat - 'A'.toNat + 10)
  else none

/-- Four hexadecimal digits at the start of `text`. -/
private def readUnit : List Char → Option (Nat × List Char)
  | a :: b :: c :: d :: rest => do
      let value := (((← hexValue? a) * 16 + (← hexValue? b)) * 16 + (← hexValue? c)) * 16 +
        (← hexValue? d)
      return (value, rest)
  | _ => none

/-- The character of an escape by code units: a unit of the upper half of a
pair has to be followed by one of the lower half. -/
private def readEscapedUnit (text : List Char) : Option (Char × List Char) := do
  let (first, rest) ← readUnit text
  if 0xdc00 ≤ first && first < 0xe000 then none
  else if 0xd800 ≤ first && first < 0xdc00 then
    match rest with
    | '\\' :: 'u' :: rest =>
        let (second, rest) ← readUnit rest
        if 0xdc00 ≤ second && second < 0xe000 then
          return (Char.ofNat (0x10000 + (first - 0xd800) * 0x400 + (second - 0xdc00)), rest)
        else none
    | _ => none
  else return (Char.ofNat first, rest)

private def simpleEscape? (c : Char) : Option Char :=
  if c = '"' || c = '\\' || c = '/' then some c
  else if c = 'b' then some '\x08'
  else if c = 'f' then some '\x0c'
  else if c = 'n' then some '\n'
  else if c = 'r' then some '\r'
  else if c = 't' then some '\t'
  else none

/-- The characters of a string up to its closing quote, after the characters
`taken` in reverse, and what follows the quote. -/
private def readChars : Nat → List Char → List Char → Option (List Char × List Char)
  | 0, _, _ => none
  | _ + 1, _, [] => none
  | fuel + 1, taken, c :: rest =>
      if c = '"' then some (taken.reverse, rest)
      else if c = '\\' then
        match rest with
        | 'u' :: rest =>
            match readEscapedUnit rest with
            | some (char, rest) => readChars fuel (char :: taken) rest
            | none => none
        | mark :: rest =>
            match simpleEscape? mark with
            | some char => readChars fuel (char :: taken) rest
            | none => none
        | [] => none
      else if c.toNat < 0x20 then none
      else readChars fuel (c :: taken) rest

private def readString (text : List Char) : Option (String × List Char) :=
  (readChars (text.length + 1) [] text).map fun (chars, rest) => (String.ofList chars, rest)

/-! ## Documents -/

private def dropWord (word : String) (text : List Char) : Option (List Char) :=
  if word.toList.isPrefixOf text then some (text.drop word.length) else none

mutual

/-- A document at the start of `text`, with `levels` levels of nesting left. -/
private def readAt : Nat → Nat → List Char → Option (Json × List Char)
  | 0, _, _ => none
  | fuel + 1, levels, text =>
      match skipBlanks text with
      | [] => none
      | 'n' :: rest => (dropWord "ull" rest).map fun rest => (null, rest)
      | 't' :: rest => (dropWord "rue" rest).map fun rest => (bool true, rest)
      | 'f' :: rest => (dropWord "alse" rest).map fun rest => (bool false, rest)
      | '"' :: rest => (readString rest).map fun (text, rest) => (string text, rest)
      | '[' :: rest =>
          match levels with
          | 0 => none
          | levels + 1 =>
              match skipBlanks rest with
              | ']' :: rest => some (array [], rest)
              | rest => (readItems fuel levels rest).map fun (items, rest) => (array items, rest)
      | '{' :: rest =>
          match levels with
          | 0 => none
          | levels + 1 =>
              match skipBlanks rest with
              | '}' :: rest => some (object [], rest)
              | rest =>
                  (readFields fuel levels rest).map fun (fields, rest) =>
                    (object fields, rest)
      | text => (readNumber text).map fun (value, rest) => (number value, rest)

private def readItems : Nat → Nat → List Char → Option (List Json × List Char)
  | 0, _, _ => none
  | fuel + 1, levels, text => do
      let (item, rest) ← readAt fuel levels text
      match skipBlanks rest with
      | ']' :: rest => return ([item], rest)
      | ',' :: rest =>
          let (items, rest) ← readItems fuel levels rest
          return (item :: items, rest)
      | _ => none

private def readFields : Nat → Nat → List Char → Option (List (String × Json) × List Char)
  | 0, _, _ => none
  | fuel + 1, levels, text => do
      match skipBlanks text with
      | '"' :: rest =>
          let (key, rest) ← readString rest
          match skipBlanks rest with
          | ':' :: rest =>
              let (value, rest) ← readAt fuel levels rest
              match skipBlanks rest with
              | '}' :: rest => return ([(key, value)], rest)
              | ',' :: rest =>
                  let (fields, rest) ← readFields fuel levels rest
                  return ((key, value) :: fields, rest)
              | _ => none
          | _ => none
      | _ => none

end

/-- The deepest nesting that is read. -/
def levelLimit : Nat := 127

def syntaxReport : String := "the text is not a JSON document"

/-- Read a document that is the whole of `text`, with all fields of an object in
the order in which they are written. -/
def readWritten? (text : String) : Option Json := do
  let chars := text.toList
  let (document, rest) ← readAt (2 * chars.length + 2) levelLimit chars
  if (skipBlanks rest).isEmpty then some document else none

mutual

/-- Keep the last field of every key, in order of the keys. -/
def normalize : Json → Json
  | array items => array (normalizeItems items)
  | object fields => ofEntries (normalizeFields fields)
  | other => other

def normalizeItems : List Json → List Json
  | [] => []
  | item :: rest => normalize item :: normalizeItems rest

def normalizeFields : List (String × Json) → List (String × Json)
  | [] => []
  | (key, value) :: rest => (key, normalize value) :: normalizeFields rest

end

def read? (text : String) : Option Json := (readWritten? text).map normalize

end Groundplan.Json
