import Groundplan.Body
import Groundplan.Name
import Groundplan.Source.Lines
/-!
Places in source files. Lines and columns count from one, columns in characters.
-/

namespace Groundplan

structure SourceRange where
  file : String
  start : Position
  stop : Position
deriving DecidableEq

namespace SourceRange

def text (range : SourceRange) : String :=
  range.file ++ ":" ++ toString range.start.line ++ ":" ++ toString range.start.column ++ "-" ++
    toString range.stop.line ++ ":" ++ toString range.stop.column

end SourceRange

structure Source where
  file : String
  text : String

namespace Source

/-- Where a byte is. The first line starts with the first byte, so every byte
is in a line. -/
def position (source : Source) (byte : Nat) : Position :=
  ((LineIndex.ofText source.text).position? source.text byte).getD .start

def range (source : Source) (span : Span) : SourceRange :=
  ⟨source.file, source.position span.start, source.position span.stop⟩

end Source

structure SourceBlock where
  source : Source
  block : Block

namespace SourceBlock

/-- Where a look for an accessor has come to: into a block, or to the blocks of
one kind. -/
inductive Found where
  | inside (block : Block)
  | among (blocks : List Block)

/-- The span of the deepest part of an accessor that exists. `span` is that of
the part that was found so far. A key leads to the nested blocks of its kind,
or else to a setting; an index picks one of those blocks, and a key after them
looks into the first. -/
def locateIn (span : Span) : Found → Accessor → Span
  | _, [] => span
  | .inside block, .key key :: rest =>
      match block.body.blocksOf key with
      | first :: others => locateIn first.span (.among (first :: others)) rest
      | [] => ((block.body.setting? key).map Setting.span).getD span
  | .among blocks, .index position :: rest =>
      match blocks[position]? with
      | some block => locateIn block.span (.inside block) rest
      | none => span
  | .among [], .key _ :: _ => span
  | .among (block :: _), .key key :: rest =>
      match block.body.setting? key with
      | some setting => setting.span
      | none =>
          match block.body.blocksOf key with
          | first :: others => locateIn first.span (.among (first :: others)) rest
          | [] => span
  | .inside _, .index _ :: _ => span

/-- Where the deepest part of an accessor that exists in the block is written. -/
def locate (located : SourceBlock) (accessor : Accessor) : SourceRange :=
  located.source.range (locateIn located.block.span (.inside located.block) accessor)

def range (located : SourceBlock) : SourceRange := located.source.range located.block.span

end SourceBlock

end Groundplan
