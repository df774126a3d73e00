import Groundplan.Expression
import Groundplan.Text.Classes
/-!
Templates: texts with interpolations and directives. A template is read as a
flat list of pieces, in which the trim marks have their effect, and is then
assembled into nested parts.
-/

namespace Groundplan.Template

inductive Mark where
  | interpolation (value : Expression)
  | choiceStart (condition : Expression)
  | otherwise
  | choiceEnd
  | loopStart (names : LoopNames) (collection : Expression)
  | loopEnd

/-- A literal or a marker. A marker may trim the literal before it and the one
after it. -/
inductive Piece where
  | literal (text : List Char)
  | marker (trimsBefore trimsAfter : Bool) (mark : Mark)

namespace Piece

def trimsBefore : Piece → Bool
  | marker before _ _ => before
  | literal _ => false

def trimsAfter : Piece → Bool
  | marker _ after _ => after
  | literal _ => false

def literalText? : Piece → Option (List Char)
  | literal text => some text
  | marker _ _ _ => none

end Piece

/-! ## Trimming -/

private def isInlineBlank (c : Char) : Bool := Text.isBlank c && c != '\n'

private def dropLineBreak : List Char → List Char
  | '\n' :: rest => rest
  | text => text

/-- Drop the blanks at the start of a text, and one line break after them. -/
def trimStart (text : List Char) : List Char := dropLineBreak (text.dropWhile isInlineBlank)

/-- Drop the blanks at the end of a text, and one line break before them. -/
def trimEnd (text : List Char) : List Char := (trimStart text.reverse).reverse

/-- Trim every literal beside a marker that asks for it; `trims` is what the
piece before the first one asks for. -/
def trimPieces (trims : Bool) : List Piece → List Piece
  | [] => []
  | .literal text :: rest =>
      let text := if trims then trimStart text else text
      let text := if (rest.head?.map Piece.trimsBefore).getD false then trimEnd text else text
      .literal text :: trimPieces false rest
  | piece :: rest => piece :: trimPieces piece.trimsAfter rest

/-! ## Indentation -/

/-- The lines of a text; only the last one lacks a line break. -/
private def splitLines (text : List Char) : List (List Char) :=
  text.foldr
    (fun c lines =>
      match c, lines with
      | '\n', _ => ['\n'] :: lines
      | _, [] => [[c]]
      | _, line :: others => (c :: line) :: others)
    []

private def isEmptyLine (line : List Char) : Bool :=
  line.all fun c => c == '\n' || c == '\r'

private def indentation (line : List Char) : Nat :=
  (line.takeWhile isInlineBlank).length

/-- The lines of a literal that start a line of the template, which the first
line of a literal after a marker does not. -/
private def startingLines (atStart : Bool) (text : List Char) : List (List Char) :=
  if atStart then splitLines text else (splitLines text).drop 1

/-- The least indentation of the lines that start in the literals of `pieces`
and are not empty. -/
private def leastIndentation (atStart : Bool) : List Piece → Option Nat
  | [] => none
  | .literal text :: rest =>
      let own := ((startingLines atStart text).filter fun line => !isEmptyLine line).map indentation
      match own.min?, leastIndentation false rest with
      | some least, some other => some (min least other)
      | some least, none => some least
      | none, other => other
  | _ :: rest => leastIndentation false rest

private def dropIndentation (count : Nat) (atStart : Bool) (text : List Char) : List Char :=
  match splitLines text with
  | [] => []
  | first :: others =>
      let shorten (line : List Char) : List Char :=
        if isEmptyLine line then line else line.drop count
      (if atStart then shorten first else first) ++ others.flatMap shorten

private def dropEachIndentation (count : Nat) (atStart : Bool) : List Piece → List Piece
  | [] => []
  | .literal text :: rest =>
      .literal (dropIndentation count atStart text) :: dropEachIndentation count false rest
  | piece :: rest => piece :: dropEachIndentation count false rest

/-- Remove the indentation that all lines have in common. -/
def dedent (pieces : List Piece) : List Piece :=
  dropEachIndentation ((leastIndentation true pieces).getD 0) true pieces

/-! ## Assembly -/

/-- A directive that waits for its end, with the parts before it in reverse. -/
inductive Open where
  | whenTrue (condition : Expression) (before : List TemplatePart)
  | whenFalse (condition : Expression) (whenTrue before : List TemplatePart)
  | loop (names : LoopNames) (collection : Expression) (before : List TemplatePart)

/-- Nest the pieces between the directives they belong to. `current` holds the
parts of the innermost open directive in reverse. -/
def assembleIn (pending : List Open) (current : List TemplatePart) :
    List Piece → Option (List TemplatePart)
  | [] => if pending.isEmpty then some current.reverse else none
  | .literal text :: rest => assembleIn pending (.literal (String.ofList text) :: current) rest
  | .marker _ _ mark :: rest =>
      match mark, pending with
      | .interpolation value, _ => assembleIn pending (.interpolation value :: current) rest
      | .choiceStart condition, _ => assembleIn (.whenTrue condition current :: pending) [] rest
      | .loopStart names collection, _ =>
          assembleIn (.loop names collection current :: pending) [] rest
      | .otherwise, .whenTrue condition before :: pending =>
          assembleIn (.whenFalse condition current.reverse before :: pending) [] rest
      | .choiceEnd, .whenTrue condition before :: pending =>
          assembleIn pending (.choice condition current.reverse [] :: before) rest
      | .choiceEnd, .whenFalse condition whenTrue before :: pending =>
          assembleIn pending (.choice condition whenTrue current.reverse :: before) rest
      | .loopEnd, .loop names collection before :: pending =>
          assembleIn pending (.loop names collection current.reverse :: before) rest
      | _, _ => none

def assemble (pieces : List Piece) : Option (List TemplatePart) :=
  assembleIn [] [] (trimPieces false pieces)

/-- A quoted text: without any marker it is a plain string. -/
def quoted (pieces : List Piece) : Option Expression :=
  match pieces.mapM Piece.literalText? with
  | some texts => some (.string (String.ofList texts.flatten))
  | none => (assemble pieces).map .template

end Groundplan.Template
