import Groundplan.Expression
/-!
Bodies: the settings and blocks of a configuration file or of a block in it.
-/

namespace Groundplan

/-- A part of a text, from one byte up to but not including another. -/
structure Span where
  start : Nat
  stop : Nat
deriving DecidableEq

structure Setting where
  key : String
  span : Span
  value : Expression

structure Block where
  kind : String
  labels : List String
  span : Span
  settings : List Setting
  blocks : List Block

/-- Settings and blocks, each in the order in which they are written. -/
structure Body where
  settings : List Setting
  blocks : List Block

namespace Block

def body (block : Block) : Body := ⟨block.settings, block.blocks⟩

end Block

namespace Body

def empty : Body := ⟨[], []⟩

def setting? (body : Body) (key : String) : Option Setting :=
  body.settings.find? fun setting => setting.key == key

def value? (body : Body) (key : String) : Option Expression :=
  (body.setting? key).map Setting.value

def blocksOf (body : Body) (kind : String) : List Block :=
  body.blocks.filter fun block => block.kind == kind

/-- The first block of a kind with exactly these labels. -/
def findBlock? (body : Body) (kind : String) (labels : List String) : Option Block :=
  body.blocks.find? fun block => block.kind == kind && block.labels == labels

end Body

end Groundplan
