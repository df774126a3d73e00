import Groundplan.Numeric.Decimal
import Groundplan.Pattern
/-!
Reading of patterns, and of the replacements that refer to their groups.
-/

namespace Groundplan

namespace Pattern

/-! ## Flags -/

/-- The flags that are in force at a place of a pattern. -/
structure Flags where
  ignoreCase : Bool := false
  manyLines : Bool := false
  dotMatchesLineBreak : Bool := false
  swapGreed : Bool := false
  ignoreBlanks : Bool := false

private def setFlag (flags : Flags) (value : Bool) (letter : Char) : Option Flags :=
  match letter with
  | 'i' => some { flags with ignoreCase := value }
  | 'm' => some { flags with manyLines := value }
  | 's' => some { flags with dotMatchesLineBreak := value }
  | 'U' => some { flags with swapGreed := value }
  | 'x' => some { flags with ignoreBlanks := value }
  | 'u' => some flags
  | 'R' => some flags
  | _ => none

private def readFlags (flags : Flags) (value : Bool) : List Char → Option (Flags × List Char)
  | [] => none
  | c :: rest =>
      if c = ')' || c = ':' then some (flags, c :: rest)
      else if c = '-' then if value then readFlags flags false rest else none
      else (setFlag flags value c).bind fun flags => readFlags flags value rest

/-! ## Classes of characters -/

/-- Letters that differ from `c` only in their case. -/
private def variants (c : Char) : List Char :=
  let single (chars : List Char) : List Char := if chars.length = 1 then chars else []
  let lowered := single (Text.lowerChar c)
  let raised := single (Text.upperChar c)
  [c] ++ lowered ++ raised ++ raised.flatMap (fun c => single (Text.lowerChar c)) ++
    lowered.flatMap (fun c => single (Text.upperChar c))

private def withCase (flags : Flags) (accepts : Char → Bool) : Char → Bool :=
  if flags.ignoreCase then fun c => (variants c).any accepts else accepts

private def isDigitChar (c : Char) : Bool := Text.decimalDigits.contains c

private def isWordChar (c : Char) : Bool := Text.isWordPart c

private def letterClass? : Char → Option (Char → Bool)
  | 'd' => some isDigitChar
  | 'D' => some fun c => !isDigitChar c
  | 'w' => some isWordChar
  | 'W' => some fun c => !isWordChar c
  | 's' => some Text.isBlank
  | 'S' => some fun c => !Text.isBlank c
  | _ => none

private def propertyClass? (name : String) : Option (Char → Bool) :=
  let plain := String.ofList ((name.toList.filter fun c => c != '_' && c != ' ' && c != '-').map
    Char.toLower)
  match plain with
  | "l" | "letter" => some Text.letters.contains
  | "lu" | "uppercaseletter" => some Text.uppercaseLetters.contains
  | "ll" | "lowercaseletter" => some Text.lowercaseLetters.contains
  | "lt" | "titlecaseletter" => some Text.titlecaseLetters.contains
  | "m" | "mark" => some Text.marks.contains
  | "n" | "number" => some fun c =>
      Text.decimalDigits.contains c || Text.letterNumbers.contains c || Text.otherNumbers.contains c
  | "nd" | "decimalnumber" | "digit" => some Text.decimalDigits.contains
  | "nl" | "letternumber" => some Text.letterNumbers.contains
  | "no" | "othernumber" => some Text.otherNumbers.contains
  | "p" | "punctuation" | "punct" => some Text.punctuation.contains
  | "pc" | "connectorpunctuation" => some Text.connectors.contains
  | "s" | "symbol" => some Text.symbols.contains
  | "z" | "separator" => some Text.separators.contains
  | "alphabetic" | "alpha" => some Text.isAlphabetic
  | "whitespace" | "wspace" | "space" => some Text.isBlank
  | "ascii" => some fun c => c.toNat < 128
  | "any" => some fun _ => true
  | _ => none

private def namedClass? : String → Option (Char → Bool)
  | "alnum" => some Char.isAlphanum
  | "alpha" => some Char.isAlpha
  | "ascii" => some fun c => c.toNat < 128
  | "blank" => some fun c => c == ' ' || c == '\t'
  | "cntrl" => some fun c => c.toNat < 32 || c.toNat == 127
  | "digit" => some Char.isDigit
  | "graph" => some fun c => 33 ≤ c.toNat && c.toNat < 127
  | "lower" => some Char.isLower
  | "print" => some fun c => 32 ≤ c.toNat && c.toNat < 127
  | "punct" => some fun c => 33 ≤ c.toNat && c.toNat < 127 && !c.isAlphanum
  | "space" => some fun c => (9 ≤ c.toNat && c.toNat ≤ 13) || c == ' '
  | "upper" => some Char.isUpper
  | "word" => some fun c => c.isAlphanum || c == '_'
  | "xdigit" => some fun c =>
      c.isDigit || ('a' ≤ c && c ≤ 'f') || ('A' ≤ c && c ≤ 'F')
  | _ => none

private def isHexDigit (c : Char) : Bool :=
  c.isDigit || ('a' ≤ c && c ≤ 'f') || ('A' ≤ c && c ≤ 'F')

private def charOfHex? (digits : List Char) : Option Char :=
  let code := Text.hexValue (String.ofList (digits.map Char.toLower))
  if digits.isEmpty || !digits.all isHexDigit || !code.isValidChar then none
  else some (Char.ofNat code)

/-- A character given by its code: `width` digits, or any number in braces. -/
private def readCode (width : Nat) (text : List Char) : Option (Char × List Char) :=
  match text with
  | '{' :: rest =>
      let digits := rest.takeWhile (· != '}')
      match rest.drop digits.length with
      | _ :: rest => (charOfHex? digits).map fun c => (c, rest)
      | [] => none
  | _ =>
      if text.length < width then none
      else (charOfHex? (text.take width)).map fun c => (c, text.drop width)

/-- The character that an escape stands for by itself. -/
private def readEscapedChar : List Char → Option (Char × List Char)
  | [] => none
  | c :: rest =>
      match c with
      | 'n' => some ('\n', rest)
      | 't' => some ('\t', rest)
      | 'r' => some ('\r', rest)
      | 'f' => some ('\x0c', rest)
      | 'v' => some ('\x0b', rest)
      | 'a' => some ('\x07', rest)
      | 'x' => readCode 2 rest
      | 'u' => readCode 4 rest
      | 'U' => readCode 8 rest
      | c =>
          if c.toNat < 128 && !c.isAlphanum && c != '<' && c != '>' && 32 ≤ c.toNat then
            some (c, rest)
          else none

/-- The name of a property: one letter, or a text in braces that may say what
the property is compared with. -/
private def readProperty : List Char → Option ((Char → Bool) × List Char)
  | '{' :: rest =>
      let name := rest.takeWhile (· != '}')
      match rest.drop name.length with
      | _ :: rest =>
          let (negated, name) :=
            match name with
            | '^' :: name => (true, name)
            | name => (false, name)
          let last := (String.ofList name).splitOn "=" |>.getLast?
          (propertyClass? (last.getD "")).map fun accepts =>
            ((if negated then fun c => !accepts c else accepts), rest)
      | [] => none
  | c :: rest => (propertyClass? (c.toString)).map fun accepts => (accepts, rest)
  | [] => none

private def readEscapedClass (text : List Char) : Option ((Char → Bool) × List Char) :=
  match text with
  | 'p' :: rest => readProperty rest
  | 'P' :: rest =>
      (readProperty rest).map fun (accepts, rest) => ((fun c => !accepts c), rest)
  | c :: rest => (letterClass? c).map fun accepts => (accepts, rest)
  | [] => none

private inductive ClassItem where
  | char (c : Char)
  | set (accepts : Char → Bool)

private def union (left right : Char → Bool) : Char → Bool := fun c => left c || right c

mutual

/-- One item of a class: a character, an escape, or a class within. -/
private def readClassItem : Nat → Flags → List Char → Option (ClassItem × List Char)
  | 0, _, _ => none
  | fuel + 1, flags, text =>
      match text with
      | [] => none
      | '[' :: ':' :: rest =>
          let (negated, named) :=
            match rest with
            | '^' :: rest => (true, rest)
            | rest => (false, rest)
          let name := named.takeWhile fun c => c.isAlpha
          match namedClass? (String.ofList name), named.drop name.length with
          | some accepts, ':' :: ']' :: rest =>
              some (.set (if negated then fun c => !accepts c else accepts), rest)
          | _, _ =>
            (readClass fuel flags (':' :: rest)).map fun (accepts, rest) => (.set accepts, rest)
      | '[' :: rest => (readClass fuel flags rest).map fun (accepts, rest) => (.set accepts, rest)
      | '\\' :: rest =>
          match readEscapedClass rest with
          | some (accepts, rest) => some (.set accepts, rest)
          | none => (readEscapedChar rest).map fun (c, rest) => (.char c, rest)
      | c :: rest => some (.char c, rest)

/-- The items of a class up to its closing bracket, joined to those in
`taken`. -/
private def readClassItems : Nat → Flags → (Char → Bool) → List Char →
    Option ((Char → Bool) × List Char)
  | 0, _, _, _ => none
  | fuel + 1, flags, taken, text =>
      match text with
      | [] => none
      | ']' :: rest => some (taken, rest)
      | '&' :: '&' :: rest => do
          let (right, rest) ← readClassItems fuel flags (fun _ => false) rest
          return ((fun c => taken c && right c), rest)
      | '-' :: '-' :: rest => do
          let (right, rest) ← readClassItems fuel flags (fun _ => false) rest
          return ((fun c => taken c && !right c), rest)
      | '~' :: '~' :: rest => do
          let (right, rest) ← readClassItems fuel flags (fun _ => false) rest
          return ((fun c => taken c != right c), rest)
      | text => do
          if flags.ignoreBlanks && (text.head?.map Text.isBlank).getD false then
            readClassItems fuel flags taken (text.drop 1)
          else
            let (item, rest) ← readClassItem fuel flags text
            match item, rest with
            | .char first, '-' :: next :: after =>
                if next = ']' || next = '-' then
                  readClassItems fuel flags (union taken (withCase flags (· == first))) rest
                else
                  let (last, rest) ← readClassItem fuel flags (next :: after)
                  match last with
                  | .char last =>
                      if last < first then none
                      else
                        readClassItems fuel flags
                          (union taken (withCase flags fun c => first ≤ c && c ≤ last)) rest
                  | .set _ => none
            | .char c, rest =>
                readClassItems fuel flags (union taken (withCase flags (· == c))) rest
            | .set accepts, rest =>
                readClassItems fuel flags (union taken (withCase flags accepts)) rest

/-- A class after its opening bracket. A closing bracket or dashes at the start
stand for themselves. -/
private def readClass : Nat → Flags → List Char → Option ((Char → Bool) × List Char)
  | 0, _, _ => none
  | fuel + 1, flags, text => do
      let (negated, text) :=
        match text with
        | '^' :: rest => (true, rest)
        | text => (false, text)
      let dashes := text.takeWhile (· == '-')
      let start : Char → Bool := if dashes.isEmpty then fun _ => false else (· == '-')
      let (start, text) :=
        match text.drop dashes.length with
        | ']' :: rest =>
          if dashes.isEmpty then (union start (· == ']'), rest) else (start, ']' :: rest)
        | rest => (start, rest)
      let (accepts, rest) ← readClassItems fuel flags start text
      return ((if negated then fun c => !accepts c else accepts), rest)

end

/-! ## Patterns -/

structure Groups where
  count : Nat
  names : List (String × Nat)

private def isNameStart (c : Char) : Bool := c.isAlpha || c == '_'

private def isNamePart (c : Char) : Bool :=
  c.isAlphanum || c == '_' || c == '.' || c == '[' || c == ']'

/-- Drop blanks and comments where they have no meaning. -/
private def dropBlanks (flags : Flags) : Nat → List Char → List Char
  | 0, text => text
  | fuel + 1, text =>
      if flags.ignoreBlanks then
        match text with
        | c :: rest =>
            if Text.isBlank c then dropBlanks flags fuel rest
            else if c = '#' then dropBlanks flags fuel (rest.dropWhile (· != '\n'))
            else text
        | [] => []
      else text

/-- The bounds of a counted repetition, after the opening brace. -/
private def readBounds (text : List Char) : Option (Nat × Option Nat × List Char) :=
  let (least, rest) := Decimal.spanDigits text
  if least.isEmpty then none
  else
    let count := Decimal.ofDigits least
    match rest with
    | '}' :: rest => some (count, some count, rest)
    | ',' :: '}' :: rest => some (count, none, rest)
    | ',' :: rest =>
        match Decimal.spanDigits rest with
        | ([], _) => none
        | (most, '}' :: rest) =>
            let limit := Decimal.ofDigits most
            if limit < count then none else some (count, some limit, rest)
        | _ => none
    | _ => none

/-- A repetition sign after a pattern: its bounds and whether it prefers more. -/
private def readRepetition (flags : Flags) (text : List Char) :
    Option (Option (Nat × Option Nat × Bool) × List Char) :=
  let finish (least : Nat) (most : Option Nat) (rest : List Char) :
      Option (Option (Nat × Option Nat × Bool) × List Char) :=
    match rest with
    | '?' :: rest => some (some (least, most, flags.swapGreed), rest)
    | rest => some (some (least, most, !flags.swapGreed), rest)
  match text with
  | '*' :: rest => finish 0 none rest
  | '+' :: rest => finish 1 none rest
  | '?' :: rest => finish 0 (some 1) rest
  | '{' :: rest => (readBounds rest).bind fun (least, most, rest) => finish least most rest
  | text => some (none, text)

mutual

/-- Alternatives up to the end of the text or a closing bracket. -/
private def readAlternatives : Nat → Flags → Groups → List Char →
    Option (Pattern × Groups × List Char)
  | 0, _, _, _ => none
  | fuel + 1, flags, groups, text => do
      let (first, flags, groups, rest) ← readSequence fuel flags groups .nothing text
      match rest with
      | '|' :: rest =>
          let (second, groups, rest) ← readAlternatives fuel flags groups rest
          return (.either first second, groups, rest)
      | rest => return (first, groups, rest)

/-- A sequence of repeated items after the pattern `taken`. -/
private def readSequence : Nat → Flags → Groups → Pattern → List Char →
    Option (Pattern × Flags × Groups × List Char)
  | 0, _, _, _, _ => none
  | fuel + 1, flags, groups, taken, text =>
      match dropBlanks flags (text.length + 1) text with
      | [] => some (taken, flags, groups, [])
      | '|' :: rest => some (taken, flags, groups, '|' :: rest)
      | ')' :: rest => some (taken, flags, groups, ')' :: rest)
      | text => do
          let (item, flags, groups, rest) ← readItem fuel flags groups text
          match item with
          | none => readSequence fuel flags groups taken rest
          | some item =>
              let (item, rest) ← readRepeated fuel flags item rest
              readSequence fuel flags groups (.sequence taken item) rest

private def readRepeated : Nat → Flags → Pattern → List Char → Option (Pattern × List Char)
  | 0, _, _, _ => none
  | fuel + 1, flags, item, text => do
      match ← readRepetition flags (dropBlanks flags (text.length + 1) text) with
      | (none, _) => return (item, text)
      | (some (least, most, greedy), rest) =>
          readRepeated fuel flags (.times item least most greedy) rest

/-- One item. A group that only sets flags is none. -/
private def readItem : Nat → Flags → Groups → List Char →
    Option (Option Pattern × Flags × Groups × List Char)
  | 0, _, _, _ => none
  | fuel + 1, flags, groups, text =>
      match text with
      | [] => none
      | '(' :: '?' :: 'P' :: '<' :: rest => readNamed fuel flags groups rest
      | '(' :: '?' :: '<' :: rest => readNamed fuel flags groups rest
      | '(' :: '?' :: rest => do
          let (inner, rest) ← readFlags flags true rest
          match rest with
          | ')' :: after =>
              if (text.drop 2).head? == some ')' then none
              else return (none, inner, groups, after)
          | _ :: after =>
              let (pattern, groups, after) ← readAlternatives fuel inner groups after
              match after with
              | ')' :: after => return (some pattern, flags, groups, after)
              | _ => none
          | [] => none
      | '(' :: rest => do
          let number := groups.count
          let (pattern, groups, rest) ←
            readAlternatives fuel flags { groups with count := number + 1 } rest
          match rest with
          | ')' :: rest => return (some (.group number pattern), flags, groups, rest)
          | _ => none
      | '[' :: rest => do
          let (accepts, rest) ← readClass fuel flags rest
          return (some (.one accepts), flags, groups, rest)
      | '.' :: rest =>
          let accepts : Char → Bool :=
            if flags.dotMatchesLineBreak then fun _ => true else (· != '\n')
          some (some (.one accepts), flags, groups, rest)
      | '^' :: rest =>
          some (some (.place (if flags.manyLines then .lineStart else .textStart)), flags, groups,
            rest)
      | '$' :: rest =>
          some (some (.place (if flags.manyLines then .lineEnd else .textEnd)), flags, groups, rest)
      | '\\' :: 'A' :: rest => some (some (.place .textStart), flags, groups, rest)
      | '\\' :: 'z' :: rest => some (some (.place .textEnd), flags, groups, rest)
      | '\\' :: 'b' :: rest => some (some (.place .wordBoundary), flags, groups, rest)
      | '\\' :: 'B' :: rest => some (some (.place .noWordBoundary), flags, groups, rest)
      | '\\' :: rest =>
          match readEscapedClass rest with
          | some (accepts, rest) => some (some (.one (withCase flags accepts)), flags, groups, rest)
          | none => do
              let (c, rest) ← readEscapedChar rest
              return (some (.one (withCase flags (· == c))), flags, groups, rest)
      | c :: rest =>
          if c = '*' || c = '+' || c = '?' || c = '{' then none
          else some (some (.one (withCase flags (· == c))), flags, groups, rest)

private def readNamed : Nat → Flags → Groups → List Char →
    Option (Option Pattern × Flags × Groups × List Char)
  | 0, _, _, _ => none
  | fuel + 1, flags, groups, text => do
      let name := text.takeWhile isNamePart
      let label := String.ofList name
      if !(name.head?.map isNameStart).getD false || (groups.names.lookup label).isSome then none
      match text.drop name.length with
      | '>' :: rest =>
          let number := groups.count
          let (pattern, groups, rest) ←
            readAlternatives fuel flags ⟨number + 1, (label, number) :: groups.names⟩ rest
          match rest with
          | ')' :: rest => return (some (.group number pattern), flags, groups, rest)
          | _ => none
      | _ => none

end

def read? (text : String) : Option (Pattern × List (String × Nat)) :=
  let chars := text.toList
  match readAlternatives (6 * chars.length + 6) {} ⟨1, []⟩ chars with
  | some (pattern, groups, []) => some (pattern, groups.names)
  | _ => none

/-! ## Replacement -/

inductive ReplacementPiece where
  | literal (c : Char)
  | reference (name : String)

private def isReferencePart (c : Char) : Bool := c.isAlphanum || c == '_'

/-- The pieces of a replacement: a dollar sign and the number or name of a
group, which may stand in braces; two dollar signs are one. `skipped` counts
characters that were already taken. -/
private def piecesIn : Nat → List Char → List ReplacementPiece
  | _, [] => []
  | skipped + 1, _ :: rest => piecesIn skipped rest
  | 0, c :: rest =>
      if c != '$' then .literal c :: piecesIn 0 rest
      else
        match rest with
        | '$' :: _ => .literal '$' :: piecesIn 1 rest
        | '{' :: inner =>
            let name := inner.takeWhile (· != '}')
            if name.length < inner.length then
              .reference (String.ofList name) :: piecesIn (name.length + 2) rest
            else .literal '$' :: piecesIn 0 rest
        | _ =>
            let name := rest.takeWhile isReferencePart
            if name.isEmpty then .literal '$' :: piecesIn 0 rest
            else .reference (String.ofList name) :: piecesIn name.length rest

private def groupNumber? (names : List (String × Nat)) (name : String) : Option Nat :=
  if name.toList.all Char.isDigit && !name.isEmpty then some (Decimal.ofDigits name.toList)
  else names.lookup name

private def slice (text : List Char) (first last : Nat) : List Char :=
  (text.drop first).take (last - first)

private def expand (names : List (String × Nat)) (text : List Char) (slots : Slots)
    (pieces : List ReplacementPiece) : List Char :=
  pieces.flatMap fun piece =>
    match piece with
    | .literal c => [c]
    | .reference name =>
        match (groupNumber? names name).bind (span? slots) with
        | some (first, last) => slice text first last
        | none => []

/-- Put the replacement in the place of every match. A group that took no part
is empty. -/
def replaceAll (pattern : Pattern) (names : List (String × Nat)) (replacement text : String) :
    String :=
  let chars := text.toList
  let pieces := piecesIn 0 replacement.toList
  let (kept, position) := (pattern.allMatches chars).foldl
    (fun (kept, position) slots =>
      let (first, last) := (span? slots 0).getD (position, position)
      (kept ++ slice chars position first ++ expand names chars slots pieces, last))
    (([] : List Char), 0)
  String.ofList (kept ++ chars.drop position)

end Pattern

end Groundplan
