import Groundplan.Body
import Groundplan.Expression.Reader
/-!
Reading of bodies. A setting or block ends with its line. A block that opens
and closes on one line holds at most one setting.
-/

namespace Groundplan.Body

def byteCount (text : List Char) : Nat :=
  text.foldl (fun total c => total + c.utf8Size) 0

/-- The labels of a block up to its opening brace. -/
private def readLabels : Nat → List Char → Option (List String × List Char)
  | 0, _ => none
  | fuel + 1, text =>
      match Blank.skip false text with
      | '{' :: rest => some ([], rest)
      | '"' :: rest => do
          let (pieces, rest) ←
            Expression.readQuoted (Expression.readerFuel rest) Expression.levelLimit [] [] rest
          match ← Template.quoted pieces with
          | .string label =>
              let (labels, rest) ← readLabels fuel rest
              return (label :: labels, rest)
          | _ => none
      | text => do
          let (label, rest) ← Expression.readIdentifier text
          let (labels, rest) ← readLabels fuel rest
          return (label :: labels, rest)

/-- The expression of a setting, after its equals sign. -/
private def readValue (text : List Char) : Option (Expression × List Char) :=
  Expression.readAt (Expression.readerFuel text) Expression.levelLimit false
    (Blank.skip false text)

/-- A setting at the start of `text`, which ends `total` bytes after the start
of the file. -/
private def readSetting (total : Nat) (text : List Char) : Option (Setting × List Char) := do
  let (key, rest) ← Expression.readIdentifier text
  match Blank.skip false rest with
  | '=' :: rest =>
      let (value, rest) ← readValue rest
      return (⟨key, ⟨total - byteCount text, total - byteCount rest⟩, value⟩, rest)
  | _ => none

/-- Whether a text starts with a setting and not with a block. -/
private def startsSetting (text : List Char) : Bool :=
  match Expression.readIdentifier text with
  | some (_, rest) => (Blank.skip false rest).head? == some '='
  | none => false

mutual

/-- The statements at the start of `text` after those of `taken`, whose parts
are in reverse. They end with the text or before a closing brace. -/
private def readStatements (total : Nat) : Nat → Body → List Char → Option (Body × List Char)
  | 0, _, _ => none
  | fuel + 1, taken, text =>
      match Blank.skip true text with
      | [] => some (⟨taken.settings.reverse, taken.blocks.reverse⟩, [])
      | '}' :: rest => some (⟨taken.settings.reverse, taken.blocks.reverse⟩, '}' :: rest)
      | text =>
          if startsSetting text then do
            let (setting, rest) ← readSetting total text
            if taken.settings.any fun other => other.key == setting.key then none
            let rest ← Blank.dropLineEnd rest
            readStatements total fuel ⟨setting :: taken.settings, taken.blocks⟩ rest
          else do
            let (block, rest) ← readBlock total fuel text
            let rest ← Blank.dropLineEnd rest
            readStatements total fuel ⟨taken.settings, block :: taken.blocks⟩ rest

private def readBlock (total : Nat) : Nat → List Char → Option (Block × List Char)
  | 0, _ => none
  | fuel + 1, text => do
      let (kind, rest) ← Expression.readIdentifier text
      let (labels, rest) ← readLabels (rest.length + 1) rest
      let finish (body : Body) (rest : List Char) : Block × List Char :=
        (⟨kind, labels, ⟨total - byteCount text, total - byteCount rest⟩, body.settings,
          body.blocks⟩, rest)
      match Blank.skip false rest with
      | '}' :: rest => return finish empty rest
      | inline =>
          match Blank.dropLineEnd rest with
          | some rest =>
              let (body, rest) ← readStatements total fuel empty rest
              match rest with
              | '}' :: rest => return finish body rest
              | _ => none
          | none =>
              let (setting, rest) ← readSetting total inline
              match Blank.skip false rest with
              | '}' :: rest => return finish ⟨[setting], []⟩ rest
              | _ => none

end

def syntaxReport : String := "the text is not a well-formed configuration"

/-- Read a body that is the whole of `text`. -/
def read? (text : String) : Option Body :=
  let chars := text.toList
  match readStatements (byteCount chars) (2 * chars.length + 2) empty chars with
  | some (body, []) => some body
  | _ => none

end Groundplan.Body
