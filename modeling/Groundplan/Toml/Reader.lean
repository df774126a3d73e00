import Groundplan.Toml.Assembly
import Groundplan.Toml.Scalar
/-!
Except Fault (of × List Char) TOML documents: a line holds a key with its value, the header of a
table, or the header of a further table of an array.
-/

namespace Groundplan.Toml

/-! ## Blanks and comments -/

private def skipSpace (text : List Char) : List Char :=
  text.dropWhile fun c => c == ' ' || c == '\t'

/-- The rest of a text after a comment at its start. -/
private def skipComment (text : List Char) : Except Fault (List Char) :=
  match text with
  | '#' :: rest =>
      let body := rest.takeWhile (· != '\n')
      let after := rest.dropWhile (· != '\n')
      let shown := if body.getLast? == some '\r' && !after.isEmpty then body.dropLast else body
      if shown.any isForbidden then .error (.before text "invalid comment character")
      else .ok after
  | _ => .ok text

private def lineBreak? : List Char → Option (List Char)
  | '\n' :: rest => some rest
  | '\r' :: '\n' :: rest => some rest
  | _ => none

private def skipLines : Nat → List Char → Except Fault (List Char)
  | 0, text => .ok text
  | fuel + 1, text => do
      let rest ← skipComment (skipSpace text)
      match lineBreak? rest with
      | some rest => skipLines fuel rest
      | none => return rest

private def skipAll (text : List Char) : Except Fault (List Char) :=
  skipLines (text.length + 1) text

/-- The rest of a text after the end of its line. -/
private def readLineEnd (text : List Char) : Except Fault (List Char) := do
  let rest ← skipComment (skipSpace text)
  match lineBreak? rest, rest with
  | some rest, _ => return rest
  | none, [] => return []
  | none, _ => .error (.before rest "unexpected key or value, expected newline, `#`")

/-! ## Keys -/

private def isBareKey (c : Char) : Bool := c.isAlphanum || c == '_' || c == '-'

/-- The part of a document of `total` characters from `text` up to `rest`. -/
private def spanOf (total : Nat) (text rest : List Char) : Span :=
  ⟨total - text.length, total - rest.length⟩

private def readSimpleKey (total : Nat) (text : List Char) : Except Fault (Key × List Char) :=
  match readQuotedLine? text with
  | some reading => do
      let (key, rest) ← reading
      return (⟨spanOf total text rest, key⟩, rest)
  | none =>
      let key := text.takeWhile isBareKey
      let rest := text.dropWhile isBareKey
      if key.isEmpty then
        .error (.before text
          "unquoted keys cannot be empty, expected letters, numbers, `-`, `_`")
      else .ok (⟨spanOf total text rest, String.ofList key⟩, rest)

private def readKeys (total : Nat) : Nat → List Char → Except Fault (List Key × List Char)
  | 0, text => .error (.before text "recursion limit exceeded")
  | fuel + 1, text => do
      let (key, rest) ← readSimpleKey total (skipSpace text)
      match skipSpace rest with
      | '.' :: rest =>
          let (keys, rest) ← readKeys total fuel rest
          return (key :: keys, rest)
      | rest => return ([key], rest)

/-- The deepest nesting of keys and of values. -/
def levelLimit : Nat := 80

private def readEquals (text : List Char) : Except Fault (List Char) :=
  match skipSpace text with
  | '=' :: rest => .ok (skipSpace rest)
  | rest => .error (.before rest "key with no value, expected `=`")

/-! ## Values -/

private def endsScalar (c : Char) : Bool :=
  [' ', '\t', '\n', '\r', ',', '[', ']', '{', '}', '#', '=', '"', '\''].contains c

/-- The characters of a scalar. A date can be joined to a time by a blank. -/
private def spanScalar (text : List Char) : List Char × List Char :=
  let word := text.takeWhile (!endsScalar ·)
  match spanDate? word, text.dropWhile (!endsScalar ·) with
  | some (_, []), ' ' :: a :: b :: ':' :: rest =>
      if a.isDigit && b.isDigit then
        let time := (a :: b :: ':' :: rest).takeWhile (!endsScalar ·)
        (word ++ ' ' :: time, (a :: b :: ':' :: rest).dropWhile (!endsScalar ·))
      else (word, ' ' :: a :: b :: ':' :: rest)
  | _, rest => (word, rest)

private def unquoted : String := "string values must be quoted, expected literal string"

private def readScalar (text : List Char) : Except Fault (Toml × List Char) :=
  let (word, rest) := spanScalar text
  match scalar? word with
  | some item => .ok (item, rest)
  | none => .error (.between text rest unquoted)

/-- Turn an error about a key into a fault of a document of `total` characters. -/
private def Fault.ofError (total : Nat) (error : TomlError) : Fault :=
  ⟨total - error.span.start, total - error.span.stop, error.message⟩

private def orFault (total : Nat) : Except TomlError α → Except Fault α
  | .ok value => .ok value
  | .error error => .error (.ofError total error)

mutual

private def readValue (total : Nat) : Nat → Nat → List Char → Except Fault (Toml × List Char)
  | 0, _, text => .error (.before text "recursion limit exceeded")
  | fuel + 1, levels, text =>
      match readQuoted? text, text, levels with
      | some reading, _, _ => do
          let (value, rest) ← reading
          return (.string value, rest)
      | none, '[' :: _, 0 => .error (.before text "recursion limit exceeded")
      | none, '{' :: _, 0 => .error (.before text "recursion limit exceeded")
      | none, '[' :: rest, levels + 1 => do
          let (items, rest) ← readItems total fuel levels rest
          return (.array items, rest)
      | none, '{' :: rest, levels + 1 => do
          let (parts, rest) ← readInline total fuel levels [] rest
          return (.table (Parts.finish parts), rest)
      | none, text, _ => readScalar text

private def readItems (total : Nat) :
    Nat → Nat → List Char → Except Fault (List (Located Toml) × List Char)
  | 0, _, text => .error (.before text "recursion limit exceeded")
  | fuel + 1, levels, text => do
      match ← skipAll text with
      | ']' :: rest => return ([], rest)
      | start =>
          let (item, after) ← readValue total fuel levels start
          let item : Located Toml := ⟨spanOf total start after, item⟩
          match ← skipAll after with
          | ',' :: rest =>
              let (items, rest) ← readItems total fuel levels rest
              return (item :: items, rest)
          | ']' :: rest => return ([item], rest)
          | rest => .error (.before rest "unclosed array, expected `]`")

/-- The fields of an inline table up to its closing brace. -/
private def readInline (total : Nat) :
    Nat → Nat → Parts → List Char → Except Fault (Parts × List Char)
  | 0, _, _, text => .error (.before text "recursion limit exceeded")
  | fuel + 1, levels, parts, text => do
      match ← skipAll text with
      | '}' :: rest => return (parts, rest)
      | text =>
          let (keys, rest) ← readKeys total levelLimit text
          let start ← readEquals rest
          let (item, after) ← readValue total fuel levels start
          let parts ← orFault total (Parts.set ⟨spanOf total start after, item⟩ keys parts)
          match ← skipAll after with
          | ',' :: rest => readInline total fuel levels parts rest
          | '}' :: rest => return (parts, rest)
          | rest => .error (.before rest "unclosed inline table, expected `\x7d`")

end

/-! ## Documents -/

/-- A document that has been read up to some line: the keys of the last header
and everything so far. -/
private structure Assembled where
  header : List Key
  parts : Parts

/-- Read the header of a table, or of a further table of an array. -/
private def readHeader (total : Nat) (taken : Assembled) (text : List Char) :
    Except Fault (Assembled × List Char) := do
  let (isArray, rest) :=
    match text with
    | '[' :: '[' :: rest => (true, rest)
    | '[' :: rest => (false, rest)
    | rest => (false, rest)
  let (keys, rest) ← readKeys total levelLimit rest
  let after ←
    match isArray, rest with
    | true, ']' :: ']' :: rest => .ok rest
    | false, ']' :: rest => .ok rest
    | true, _ => .error (Fault.before rest "unclosed array table, expected `]]`")
    | false, _ => .error (Fault.before rest "unclosed table, expected `]`")
  let span := spanOf total text after
  let last := keys.getLast?.getD ⟨span, ""⟩
  let change := if isArray then Parts.addTable span last else Parts.openTable span last
  let parts ← orFault total (Parts.changeAt change keys.dropLast taken.parts)
  return (⟨keys, parts⟩, after)

/-- Read a key with its value into the table of the last header. -/
private def readSetting (total : Nat) (taken : Assembled) (text : List Char) :
    Except Fault (Assembled × List Char) := do
  let (keys, rest) ← readKeys total levelLimit text
  let start ← readEquals rest
  let (item, after) ← readValue total (2 * start.length + 2) levelLimit start
  let set := Parts.set ⟨spanOf total start after, item⟩ keys
  let parts ← orFault total (Parts.changeAt set taken.header taken.parts)
  return ({ taken with parts }, after)

private def readDocument (total : Nat) : Nat → Assembled → List Char → Except Fault Parts
  | 0, _, text => .error (.before text "recursion limit exceeded")
  | fuel + 1, taken, text => do
      match ← skipAll text with
      | [] => return taken.parts
      | '[' :: rest =>
          let (taken, rest) ← readHeader total taken ('[' :: rest)
          readDocument total fuel taken (← readLineEnd rest)
      | text =>
          let (taken, rest) ← readSetting total taken text
          readDocument total fuel taken (← readLineEnd rest)

def read (text : String) : Except TomlError (Table String (Located Toml)) :=
  let whole := text.toList
  let chars :=
    match whole with
    | c :: rest => if c = '\uFEFF' then rest else whole
    | [] => []
  match readDocument whole.length (whole.length + 1) ⟨[], []⟩ chars with
  | .ok parts => .ok (Parts.finish parts)
  | .error fault =>
      .error ⟨⟨whole.length - fault.left, whole.length - fault.leftAfter⟩, fault.message⟩

end Groundplan.Toml
