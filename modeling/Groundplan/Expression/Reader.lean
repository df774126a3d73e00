import Groundplan.Expression.Template
/-!
Reading of expressions. Every reader takes the text that is left and returns
what it read together with the text after it. Blanks may hold line breaks only
where brackets, call arguments, loops or interpolations enclose them.
-/

namespace Groundplan

/-! ## Blanks and words -/

namespace Blank

/-- Where a scan for blanks is: between comments, in a comment that ends with
its line, or in one that began at `start` and has to be closed. -/
inductive Within where
  | nothing
  | line
  | block (start : List Char)

/-- Drop blanks and comments from the front. Line breaks, and comments that end
with one, are dropped only if `lines` says so. -/
def skipIn (lines : Bool) : Within → List Char → List Char
  | .block start, [] => start
  | .block _, '*' :: '/' :: rest => skipIn lines .nothing rest
  | .block start, _ :: rest => skipIn lines (.block start) rest
  | _, [] => []
  | .line, '\n' :: rest => skipIn lines .nothing rest
  | .line, _ :: rest => skipIn lines .line rest
  | .nothing, '/' :: '*' :: rest => skipIn lines (.block ('/' :: '*' :: rest)) rest
  | .nothing, '/' :: '/' :: rest =>
      if lines then skipIn lines .line rest else '/' :: '/' :: rest
  | .nothing, c :: rest =>
      if c = ' ' || c = '\t' then skipIn lines .nothing rest
      else if lines && (c = '\n' || c = '\r') then skipIn lines .nothing rest
      else if lines && c = '#' then skipIn lines .line rest
      else c :: rest

def skip (lines : Bool) (text : List Char) : List Char := skipIn lines .nothing text

/-- The text after the end of the current line, which may hold a comment. -/
def dropLineEnd (text : List Char) : Option (List Char) :=
  match skip false text with
  | [] => some []
  | '\n' :: rest => some rest
  | '\r' :: '\n' :: rest => some rest
  | '#' :: rest => some ((rest.dropWhile (· != '\n')).drop 1)
  | '/' :: '/' :: rest => some ((rest.dropWhile (· != '\n')).drop 1)
  | _ => none

example : skip false " /* a\n */ b".toList = ['b'] := by rfl

example : skip true "# a\n\tb".toList = ['b'] := by rfl

end Blank

namespace Expression

/-- How deep expressions may nest. -/
def levelLimit : Nat := 64

/-- How many operators of two operands may follow each other. -/
def chainLimit : Nat := 128

/-- The text after `word`, if `text` starts with it. -/
def dropText (word : String) (text : List Char) : Option (List Char) :=
  if word.toList.isPrefixOf text then some (text.drop word.length) else none

def readIdentifier : List Char → Option (String × List Char)
  | c :: rest =>
      if Text.isIdentifierStart c then
        some (String.ofList (c :: rest.takeWhile Text.isIdentifierPart),
          rest.dropWhile Text.isIdentifierPart)
      else none
  | [] => none

/-- The parts of a call name, joined by double colons. -/
private def readScopedName : Nat → List Char → Option (String × List Char)
  | 0, _ => none
  | fuel + 1, text => do
      let (first, rest) ← readIdentifier text
      match rest with
      | ':' :: ':' :: rest =>
          let (others, rest) ← readScopedName fuel rest
          return (first ++ "::" ++ others, rest)
      | rest => return (first, rest)

/-! ## Numbers -/

private def readFraction (text : List Char) : List Char × List Char :=
  match text with
  | '.' :: rest =>
      match Decimal.spanDigits rest with
      | ([], _) => ([], text)
      | (digits, rest) => ('.' :: digits, rest)
  | text => ([], text)

private def readExponent (text : List Char) : List Char × List Char :=
  match text with
  | mark :: rest =>
      if mark = 'e' || mark = 'E' then
        let (sign, rest) :=
          match rest with
          | '-' :: rest => (['-'], rest)
          | '+' :: rest => (['+'], rest)
          | rest => ([], rest)
        match Decimal.spanDigits rest with
        | ([], _) => ([], text)
        | (digits, rest) => ('e' :: sign ++ digits, rest)
      else ([], text)
  | [] => ([], [])

/-- A number without a sign. An integer has to fit 64 bits, and a fraction has
to be finite. -/
def readNumber (text : List Char) : Option (Number × List Char) :=
  let (whole, rest) := Decimal.spanDigits text
  let (fraction, rest) := readFraction rest
  let (exponent, rest) := readExponent rest
  if whole.isEmpty then none
  else if fraction.isEmpty && exponent.isEmpty then
    let value := Decimal.ofDigits whole
    if value < wordCount then some (.ofNat value, rest) else none
  else
    (Decimal.read? (whole ++ fraction ++ exponent)).bind fun value =>
      if value.isFinite then some (.ofBinary value, rest) else none

/-! ## Operators -/

/-- An operator of two operands. A comment is not a division. -/
private def readBinaryOperator : List Char → Option (BinaryOperator × List Char)
  | '|' :: '|' :: rest => some (.or, rest)
  | '&' :: '&' :: rest => some (.and, rest)
  | '=' :: '=' :: rest => some (.equal, rest)
  | '!' :: '=' :: rest => some (.notEqual, rest)
  | '<' :: '=' :: rest => some (.lessOrEqual, rest)
  | '>' :: '=' :: rest => some (.greaterOrEqual, rest)
  | '<' :: rest => some (.less, rest)
  | '>' :: rest => some (.greater, rest)
  | '+' :: rest => some (.add, rest)
  | '-' :: rest => some (.subtract, rest)
  | '*' :: rest => some (.multiply, rest)
  | '/' :: '/' :: _ => none
  | '/' :: '*' :: _ => none
  | '/' :: rest => some (.divide, rest)
  | '%' :: rest => some (.remainder, rest)
  | _ => none

/-- Join the operands around the operators of one precedence, from the left. -/
def joinAt (precedence : Nat) (first : Expression) :
    List (BinaryOperator × Expression) → Expression × List (BinaryOperator × Expression)
  | [] => (first, [])
  | (operator, operand) :: rest =>
      if operator.precedence = precedence then
        joinAt precedence (.binary operator first operand) rest
      else
        let (operand, rest) := joinAt precedence operand rest
        (first, (operator, operand) :: rest)

def joinChain (first : Expression) (rest : List (BinaryOperator × Expression)) : Expression :=
  ([6, 5, 4, 3, 2, 1].foldl (fun (chain : Expression × _) precedence =>
    joinAt precedence chain.1 chain.2) (first, rest)).1

/-! ## Quoted characters -/

private def hexValue? (digits : List Char) : Option Nat :=
  digits.foldlM
    (fun total digit =>
      if digit.isDigit then some (16 * total + (digit.toNat - '0'.toNat))
      else if 'a' ≤ digit && digit ≤ 'f' then some (16 * total + (digit.toNat - 'a'.toNat + 10))
      else if 'A' ≤ digit && digit ≤ 'F' then some (16 * total + (digit.toNat - 'A'.toNat + 10))
      else none)
    0

private def charOfCode? (code : Nat) : Option Char :=
  if code.isValidChar then some (Char.ofNat code) else none

/-- The character that an escape stands for, and the text after it. -/
def readEscape : List Char → Option (Char × List Char)
  | 'n' :: rest => some ('\n', rest)
  | 'r' :: rest => some ('\r', rest)
  | 't' :: rest => some ('\t', rest)
  | '\\' :: rest => some ('\\', rest)
  | '"' :: rest => some ('"', rest)
  | '/' :: rest => some ('/', rest)
  | 'b' :: rest => some ('\x08', rest)
  | 'f' :: rest => some ('\x0c', rest)
  | 'u' :: rest =>
      if rest.length < 4 then none
      else do return (← charOfCode? (← hexValue? (rest.take 4)), rest.drop 4)
  | 'U' :: rest =>
      if rest.length < 8 then none
      else do return (← charOfCode? (← hexValue? (rest.take 8)), rest.drop 8)
  | _ => none

/-- The content of a block of lines up to the line that holds only `delimiter`,
and the text after that delimiter. -/
private def splitHeredoc (delimiter : String) : Nat → List Char → List Char →
    Option (List Char × List Char)
  | 0, _, _ => none
  | fuel + 1, taken, text =>
      let indented := text.dropWhile fun c => c == ' ' || c == '\t'
      let closed := (dropText delimiter indented).filter fun rest =>
        match rest with
        | [] => true
        | '\n' :: _ => true
        | '\r' :: '\n' :: _ => true
        | _ => false
      match closed with
      | some rest => some (taken.reverse, rest)
      | none =>
          match text.dropWhile (· != '\n') with
          | [] => none
          | _ :: rest =>
              splitHeredoc delimiter fuel
                ('\n' :: (text.takeWhile (· != '\n')).reverse ++ taken) rest

/-- Whether a text can start a loop: the word `for` and a blank after it. -/
private def dropLoopWord (text : List Char) : Option (List Char) :=
  match dropText "for" text with
  | some rest =>
      let after := Blank.skip true rest
      if after.length < rest.length then some after else none
  | none => none

private def addLiteral (text : List Char) (pieces : List Template.Piece) : List Template.Piece :=
  if text.isEmpty then pieces else .literal text.reverse :: pieces

private def dropTrimMark : List Char → Bool × List Char
  | '~' :: rest => (true, rest)
  | text => (false, text)

/-! ## Expressions -/

mutual

/-- An expression at the start of `text`, in which `levels` more levels may be
nested. -/
def readAt : Nat → Nat → Bool → List Char → Option (Expression × List Char)
  | 0, _, _, _ => none
  | fuel + 1, levels, lines, text => do
      let (first, rest) ← readOperand fuel levels lines text
      let (others, rest) ← readChain fuel levels lines chainLimit rest
      let condition := joinChain first others
      match Blank.skip lines rest with
      | '?' :: after =>
          let (whenTrue, after) ← readNested fuel levels lines (Blank.skip lines after)
          match Blank.skip lines after with
          | ':' :: after =>
              let (whenFalse, after) ← readNested fuel levels lines (Blank.skip lines after)
              return (.conditional condition whenTrue whenFalse, after)
          | _ => none
      | _ => return (condition, rest)

def readNested : Nat → Nat → Bool → List Char → Option (Expression × List Char)
  | 0, _, _, _ => none
  | _ + 1, 0, _, _ => none
  | fuel + 1, levels + 1, lines, text => readAt fuel levels lines text

/-- The operators that follow an operand, each with its right operand. -/
def readChain : Nat → Nat → Bool → Nat → List Char →
    Option (List (BinaryOperator × Expression) × List Char)
  | 0, _, _, _, _ => none
  | fuel + 1, levels, lines, limit, text =>
      match readBinaryOperator (Blank.skip lines text), limit with
      | none, _ => some ([], text)
      | some _, 0 => none
      | some (operator, rest), limit + 1 => do
          let (operand, rest) ← readOperand fuel levels lines (Blank.skip lines rest)
          let (others, rest) ← readChain fuel levels lines limit rest
          return ((operator, operand) :: others, rest)

/-- An operand with the signs before it and the steps after it. -/
def readOperand : Nat → Nat → Bool → List Char → Option (Expression × List Char)
  | 0, _, _, _ => none
  | fuel + 1, levels, lines, text =>
      match text with
      | '-' :: rest => do
          let (operand, rest) ← readOperand fuel levels lines (Blank.skip lines rest)
          return (.unary .negate operand, rest)
      | '!' :: rest => do
          let (operand, rest) ← readOperand fuel levels lines (Blank.skip lines rest)
          return (.unary .not operand, rest)
      | text => do
          let (base, rest) ← readPrimary fuel levels text
          match ← readSteps fuel levels lines rest with
          | ([], rest) => return (base, rest)
          | (steps, rest) => return (.traversal base steps, rest)

def readSteps : Nat → Nat → Bool → List Char → Option (List TraversalStep × List Char)
  | 0, _, _, _ => none
  | fuel + 1, levels, lines, text =>
      match Blank.skip lines text with
      | '.' :: '.' :: _ => some ([], text)
      | '.' :: rest =>
          match Blank.skip true rest with
          | '*' :: rest => do
              let (steps, rest) ← readSteps fuel levels lines rest
              return (.memberSplat :: steps, rest)
          | after =>
              match Decimal.spanDigits after with
              | ([], _) => do
                  let (name, rest) ← readIdentifier after
                  let (steps, rest) ← readSteps fuel levels lines rest
                  return (.member name :: steps, rest)
              | (digits, rest) => do
                  let position := Decimal.ofDigits digits
                  if position ≥ wordCount then none
                  let (steps, rest) ← readSteps fuel levels lines rest
                  return (.position position :: steps, rest)
      | '[' :: rest =>
          match Blank.skip true rest with
          | '*' :: rest =>
              match Blank.skip true rest with
              | ']' :: rest => do
                  let (steps, rest) ← readSteps fuel levels lines rest
                  return (.fullSplat :: steps, rest)
              | _ => none
          | after => do
              let (position, rest) ← readNested fuel levels true after
              match Blank.skip true rest with
              | ']' :: rest =>
                  let (steps, rest) ← readSteps fuel levels lines rest
                  return (.index position :: steps, rest)
              | _ => none
      | _ => some ([], text)

def readPrimary : Nat → Nat → List Char → Option (Expression × List Char)
  | 0, _, _ => none
  | fuel + 1, levels, text =>
      match text with
      | '"' :: rest => do
          let (pieces, rest) ← readQuoted fuel levels [] [] rest
          return (← Template.quoted pieces, rest)
      | '<' :: '<' :: '-' :: rest => readHeredoc fuel levels true rest
      | '<' :: '<' :: rest => readHeredoc fuel levels false rest
      | '(' :: rest => do
          let (inner, rest) ← readNested fuel levels true (Blank.skip true rest)
          match Blank.skip true rest with
          | ')' :: rest => return (.group inner, rest)
          | _ => none
      | '[' :: rest =>
          let start := Blank.skip true rest
          match dropLoopWord start with
          | some rest => readListLoop fuel levels rest
          | none => do
              let (items, rest) ← readItems fuel levels start
              return (.list items, rest)
      | '{' :: rest =>
          let start := Blank.skip true rest
          match dropLoopWord start with
          | some rest => readObjectLoop fuel levels rest
          | none => do
              let (items, rest) ← readObjectItems fuel levels [] start
              return (.object items, rest)
      | c :: _ =>
          if c.isDigit then
            (readNumber text).map fun (value, rest) => (.number value, rest)
          else do
            let (name, rest) ← readScopedName fuel text
            match Blank.skip false rest with
            | '(' :: rest =>
                let (arguments, spread, rest) ← readArguments fuel levels (Blank.skip true rest)
                return (.call name arguments spread, rest)
            | _ =>
                if name = "null" then return (.null, rest)
                else if name = "true" then return (.bool true, rest)
                else if name = "false" then return (.bool false, rest)
                else if name.toList.contains ':' then none
                else return (.read name, rest)
      | [] => none

def readItems : Nat → Nat → List Char → Option (List Expression × List Char)
  | 0, _, _ => none
  | _ + 1, _, ']' :: rest => some ([], rest)
  | fuel + 1, levels, text => do
      let (item, rest) ← readNested fuel levels true text
      match Blank.skip true rest with
      | ']' :: rest => return ([item], rest)
      | ',' :: rest =>
          let (items, rest) ← readItems fuel levels (Blank.skip true rest)
          return (item :: items, rest)
      | _ => none

/-- The arguments of a call up to its closing bracket, and whether the last one
is handed on item by item. -/
def readArguments : Nat → Nat → List Char → Option (List Expression × Bool × List Char)
  | 0, _, _ => none
  | _ + 1, _, ')' :: rest => some ([], false, rest)
  | fuel + 1, levels, text => do
      let (argument, rest) ← readNested fuel levels true text
      match Blank.skip true rest with
      | ')' :: rest => return ([argument], false, rest)
      | ',' :: rest =>
          let (arguments, spread, rest) ← readArguments fuel levels (Blank.skip true rest)
          return (argument :: arguments, spread, rest)
      | '.' :: '.' :: '.' :: rest =>
          match Blank.skip true rest with
          | ')' :: rest => return ([argument], true, rest)
          | _ => none
      | _ => none

/-- The items of an object up to its closing brace. No two items may have the
same key. -/
def readObjectItems : Nat → Nat → List ObjectItem → List Char →
    Option (List ObjectItem × List Char)
  | 0, _, _, _ => none
  | _ + 1, _, taken, '}' :: rest => some (taken.reverse, rest)
  | fuel + 1, levels, taken, text => do
      let (key, rest) ← readNested fuel levels false text
      let afterKey ←
        match Blank.skip false rest with
        | '=' :: rest => some rest
        | ':' :: rest => some rest
        | _ => none
      let (value, rest) ← readNested fuel levels false (Blank.skip false afterKey)
      let item : ObjectItem :=
        match key with
        | .read name => .named name value
        | key => .computed key value
      let repeated := taken.any fun other =>
        match other, item with
        | .named first _, .named second _ => first == second
        | .computed first _, .computed second _ => first == second
        | _, _ => false
      if repeated then none
      match Blank.skip false rest with
      | '}' :: rest => return ((item :: taken).reverse, rest)
      | ',' :: rest => readObjectItems fuel levels (item :: taken) (Blank.skip true rest)
      | after =>
          let next := Blank.skip true after
          if next.length < after.length then readObjectItems fuel levels (item :: taken) next
          else none

def readLoopHead : Nat → Nat → List Char → Option (LoopNames × Expression × List Char)
  | 0, _, _ => none
  | fuel + 1, levels, text => do
      let (first, rest) ← readIdentifier text
      let (names, rest) ←
        match Blank.skip true rest with
        | ',' :: rest => do
            let (second, rest) ← readIdentifier (Blank.skip true rest)
            some ((⟨some first, second⟩ : LoopNames), rest)
        | _ => some (⟨none, first⟩, rest)
      let rest ← dropText "in" (Blank.skip true rest)
      let (collection, rest) ← readNested fuel levels true (Blank.skip true rest)
      return (names, collection, rest)

def readLoopCondition : Nat → Nat → List Char → Option (Expression × List Char)
  | 0, _, _ => none
  | fuel + 1, levels, text =>
      match dropText "if" (Blank.skip true text) with
      | some rest => readNested fuel levels true (Blank.skip true rest)
      | none => some (.bool true, text)

def readListLoop : Nat → Nat → List Char → Option (Expression × List Char)
  | 0, _, _ => none
  | fuel + 1, levels, text => do
      let (names, collection, rest) ← readLoopHead fuel levels text
      let rest ← dropText ":" (Blank.skip true rest)
      let (result, rest) ← readNested fuel levels true (Blank.skip true rest)
      let (condition, rest) ← readLoopCondition fuel levels rest
      let rest ← dropText "]" (Blank.skip true rest)
      return (.listLoop names collection result condition, rest)

def readObjectLoop : Nat → Nat → List Char → Option (Expression × List Char)
  | 0, _, _ => none
  | fuel + 1, levels, text => do
      let (names, collection, rest) ← readLoopHead fuel levels text
      let rest ← dropText ":" (Blank.skip true rest)
      let (key, rest) ← readNested fuel levels true (Blank.skip true rest)
      let rest ← dropText "=>" (Blank.skip true rest)
      let (value, rest) ← readNested fuel levels true (Blank.skip true rest)
      let (grouped, rest) :=
        match dropText "..." (Blank.skip true rest) with
        | some rest => (true, rest)
        | none => (false, rest)
      let (condition, rest) ← readLoopCondition fuel levels rest
      let rest ← dropText "\x7d" (Blank.skip true rest)
      return (.objectLoop names collection key value condition grouped, rest)

/-- The pieces of a quoted text up to its closing quote. `pending` holds the
characters of the current literal in reverse, `pieces` what came before it. -/
def readQuoted : Nat → Nat → List Char → List Template.Piece → List Char →
    Option (List Template.Piece × List Char)
  | 0, _, _, _, _ => none
  | fuel + 1, levels, pending, pieces, text =>
      match text with
      | [] => none
      | '"' :: rest => some ((addLiteral pending pieces).reverse, rest)
      | '\\' :: rest => do
          let (c, rest) ← readEscape rest
          readQuoted fuel levels (c :: pending) pieces rest
      | '$' :: '$' :: '{' :: rest => readQuoted fuel levels ('{' :: '$' :: pending) pieces rest
      | '%' :: '%' :: '{' :: rest => readQuoted fuel levels ('{' :: '%' :: pending) pieces rest
      | '$' :: '{' :: rest => do
          let (marker, rest) ← readInterpolation fuel levels rest
          readQuoted fuel levels [] (marker :: addLiteral pending pieces) rest
      | '%' :: '{' :: rest => do
          let (marker, rest) ← readDirective fuel levels rest
          readQuoted fuel levels [] (marker :: addLiteral pending pieces) rest
      | c :: rest => readQuoted fuel levels (c :: pending) pieces rest

/-- The pieces of a template that is the whole of `text` and has no escapes. -/
def readPieces : Nat → Nat → List Char → List Template.Piece → List Char →
    Option (List Template.Piece)
  | 0, _, _, _, _ => none
  | fuel + 1, levels, pending, pieces, text =>
      match text with
      | [] => some (addLiteral pending pieces).reverse
      | '$' :: '$' :: '{' :: rest => readPieces fuel levels ('{' :: '$' :: pending) pieces rest
      | '%' :: '%' :: '{' :: rest => readPieces fuel levels ('{' :: '%' :: pending) pieces rest
      | '$' :: '{' :: rest => do
          let (marker, rest) ← readInterpolation fuel levels rest
          readPieces fuel levels [] (marker :: addLiteral pending pieces) rest
      | '%' :: '{' :: rest => do
          let (marker, rest) ← readDirective fuel levels rest
          readPieces fuel levels [] (marker :: addLiteral pending pieces) rest
      | c :: rest => readPieces fuel levels (c :: pending) pieces rest

/-- A block of lines, after the mark that opens it. -/
def readHeredoc : Nat → Nat → Bool → List Char → Option (Expression × List Char)
  | 0, _, _, _ => none
  | fuel + 1, levels, dedented, text => do
      let (delimiter, rest) ← readIdentifier text
      let body ←
        match rest with
        | '\n' :: rest => some rest
        | '\r' :: '\n' :: rest => some rest
        | _ => none
      let (content, rest) ← splitHeredoc delimiter (body.length + 1) [] body
      let pieces ← readPieces fuel levels [] [] content
      let parts ← Template.assemble (if dedented then Template.dedent pieces else pieces)
      return (.template parts, rest)

def readInterpolation : Nat → Nat → List Char → Option (Template.Piece × List Char)
  | 0, _, _ => none
  | fuel + 1, levels, text => do
      let (trimsBefore, rest) := dropTrimMark text
      let (value, rest) ← readNested fuel levels true (Blank.skip true rest)
      let (trimsAfter, rest) := dropTrimMark (Blank.skip true rest)
      let rest ← dropText "\x7d" rest
      return (.marker trimsBefore trimsAfter (.interpolation value), rest)

def readDirective : Nat → Nat → List Char → Option (Template.Piece × List Char)
  | 0, _, _ => none
  | fuel + 1, levels, text => do
      let (trimsBefore, rest) := dropTrimMark text
      let (word, rest) ← readIdentifier (Blank.skip true rest)
      let (mark, rest) ← readMark fuel levels word (Blank.skip true rest)
      let (trimsAfter, rest) := dropTrimMark (Blank.skip true rest)
      let rest ← dropText "\x7d" rest
      return (.marker trimsBefore trimsAfter mark, rest)

/-- What the directive of the name `word` says. -/
def readMark : Nat → Nat → String → List Char → Option (Template.Mark × List Char)
  | 0, _, _, _ => none
  | fuel + 1, levels, word, text =>
      if word = "if" then do
        let (condition, rest) ← readNested fuel levels true text
        return (.choiceStart condition, rest)
      else if word = "for" then do
        let (names, collection, rest) ← readLoopHead fuel levels text
        return (.loopStart names collection, rest)
      else if word = "else" then some (.otherwise, text)
      else if word = "endif" then some (.choiceEnd, text)
      else if word = "endfor" then some (.loopEnd, text)
      else none

end

/-- More steps than any reader takes on `text`. -/
def readerFuel (text : List Char) : Nat := 10 * text.length + 10

def read? (text : String) : Option Expression :=
  let chars := text.toList
  match readAt (readerFuel chars) levelLimit false chars with
  | some (expression, []) => some expression
  | _ => none

end Expression

end Groundplan
