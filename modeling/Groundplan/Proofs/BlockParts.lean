import Groundplan.Body.Reader
import Groundplan.Source
import Mathlib.Data.List.Induction
/-!
Parts of blocks. An accessor names a block, the blocks of one kind or a setting; a search for it
comes to the deepest part that a start of the accessor names, unless a key leads both to a
setting and to blocks of a block that is not picked by an index.
-/

namespace Groundplan

namespace Block

/-- What an accessor can name in a block. -/
inductive Part where
  | block (block : Block)
  /-- The blocks of one kind in one body, of which there is at least one. -/
  | kind (first : Block) (others : List Block)
  | setting (setting : Setting)

/-- Where a part is written; blocks of a kind count as written where the first of them is. -/
def Part.span : Part → Span
  | .block inner => inner.span
  | .kind first _ => first.span
  | .setting given => given.span

/-- Which part of a block an accessor names. A key names the blocks of its kind if there are any
and else a setting, an index picks one of the blocks of a kind, and a key right after them means
what it means after the index zero. -/
inductive Names (block : Block) : Accessor → Part → Prop where
  | whole : Names block [] (.block block)
  | kind {path : Accessor} {inner first : Block} {key : String} {others : List Block}
      (inside : Names block path (.block inner))
      (nested : inner.body.blocksOf key = first :: others) :
      Names block (path ++ [.key key]) (.kind first others)
  | setting {path : Accessor} {inner : Block} {key : String} {setting : Setting}
      (inside : Names block path (.block inner)) (noBlocks : inner.body.blocksOf key = [])
      (found : inner.body.setting? key = some setting) :
      Names block (path ++ [.key key]) (.setting setting)
  | item {path : Accessor} {first inner : Block} {others : List Block} {position : Nat}
      (among : Names block path (.kind first others))
      (picked : (first :: others)[position]? = some inner) :
      Names block (path ++ [.index position]) (.block inner)
  | first {path : Accessor} {first : Block} {others : List Block} {key : String} {part : Part}
      (among : Names block path (.kind first others))
      (same : Names block (path ++ [.index 0, .key key]) part) :
      Names block (path ++ [.key key]) part

/-- Whether a part is named by the longest start of an accessor that names anything. -/
def Deepest (block : Block) (accessor : Accessor) (part : Part) : Prop :=
  ∃ path, path <+: accessor ∧ Names block path part ∧
    ∀ longer other, longer <+: accessor → Names block longer other → longer <+: path

/-- Whether a path ends in a key that follows the blocks of a kind without an index and leads
in the first of them both to a setting and to blocks. -/
def Ambiguous (block : Block) (whole : Accessor) (setting : Setting) : Prop :=
  ∃ path first others key, whole = path ++ [.key key] ∧ Names block path (.kind first others) ∧
    first.body.blocksOf key ≠ [] ∧ first.body.setting? key = some setting

/-- Whether a setting is the one at the first ambiguous key of an accessor. -/
def FirstAmbiguous (block : Block) (accessor : Accessor) (setting : Setting) : Prop :=
  ∃ whole, whole <+: accessor ∧ Ambiguous block whole setting ∧
    ∀ shorter other, shorter <+: accessor → Ambiguous block shorter other → whole <+: shorter

namespace Part

/-! ## Steps -/

/-- The part that a key leads to inside a block. -/
def inside? (inner : Block) (key : String) : Option Part :=
  match inner.body.blocksOf key with
  | first :: others => some (.kind first others)
  | [] => (inner.body.setting? key).map .setting

def step? : Part → Segment → Option Part
  | .block inner, .key key => inside? inner key
  | .kind first others, .index position => (first :: others)[position]?.map .block
  | .kind first _, .key key => inside? first key
  | .block _, .index _ => none
  | .setting _, _ => none

def follow? (part : Part) (path : Accessor) : Option Part := path.foldlM step? part

/-- The setting that a segment leads to besides blocks. -/
def besides? : Part → Segment → Option Setting
  | .kind first _, .key key =>
      if first.body.blocksOf key = [] then none else first.body.setting? key
  | _, _ => none

variable {block : Block} {part next : Part} {path accessor : Accessor} {segment : Segment}

theorem inside?_eq_some_iff {inner : Block} {key : String} : inside? inner key = some part ↔
    (∃ first others, inner.body.blocksOf key = first :: others ∧ part = .kind first others) ∨
      inner.body.blocksOf key = [] ∧
        ∃ setting, inner.body.setting? key = some setting ∧ part = .setting setting := by
  rw [inside?]
  cases inner.body.blocksOf key with
  | nil => cases inner.body.setting? key <;> simp [eq_comm]
  | cons first others => simp [eq_comm]

@[simp] theorem follow?_nil (part : Part) : part.follow? [] = some part := rfl

theorem follow?_cons (part : Part) (segment : Segment) (rest : Accessor) :
    part.follow? (segment :: rest) = (part.step? segment).bind fun next => next.follow? rest := by
  rw [follow?, List.foldlM_cons]
  rfl

theorem follow?_concat (part : Part) (path : Accessor) (segment : Segment) :
    part.follow? (path ++ [segment]) = (part.follow? path).bind fun next => next.step? segment := by
  induction path generalizing part with
  | nil => simp [follow?_cons]
  | cons first rest induction =>
      rw [List.cons_append, follow?_cons, follow?_cons, Option.bind_assoc]
      exact Option.bind_congr fun next _ => induction next

end Part

/-! ## What is named is what the steps lead to -/

variable {block : Block} {part : Part} {path accessor : Accessor} {setting : Setting}

theorem Names.inside {inner : Block} {key : String} (inside : Names block path (.block inner))
    (led : Part.inside? inner key = some part) : Names block (path ++ [.key key]) part := by
  rcases Part.inside?_eq_some_iff.mp led with
    ⟨first, others, nested, rfl⟩ | ⟨noBlocks, setting, found, rfl⟩
  · exact .kind inside nested
  · exact .setting inside noBlocks found

theorem names_iff : Names block path part ↔ (Part.block block).follow? path = some part := by
  constructor
  · intro named
    induction named with
    | whole => rfl
    | kind _ nested induction =>
        rw [Part.follow?_concat, induction, Option.bind_some, Part.step?, Part.inside?, nested]
    | setting _ noBlocks found induction =>
        rw [Part.follow?_concat, induction, Option.bind_some, Part.step?, Part.inside?, noBlocks,
          found, Option.map_some]
    | item _ picked induction =>
        rw [Part.follow?_concat, induction, Option.bind_some, Part.step?, picked, Option.map_some]
    | @first path first others key part _ _ among same =>
        rw [← List.singleton_append, ← List.append_assoc, Part.follow?_concat,
          Part.follow?_concat, among] at same
        rw [Part.follow?_concat, among]
        exact same
  · intro led
    induction path using List.reverseRecOn generalizing part with
    | nil =>
        cases led
        exact .whole
    | append_singleton path segment induction =>
        rw [Part.follow?_concat] at led
        rcases Option.bind_eq_some_iff.mp led with ⟨before, reached, step⟩
        have named := induction reached
        cases before with
        | block inner =>
            cases segment with
            | key key => exact named.inside step
            | index => cases step
        | kind first others =>
            cases segment with
            | key key =>
                have picked : Names block (path ++ [.index 0]) (.block first) := named.item rfl
                have inner := picked.inside step
                rw [List.append_assoc, List.singleton_append] at inner
                exact named.first inner
            | index position =>
                rcases Option.map_eq_some_iff.mp step with ⟨inner, picked, rfl⟩
                exact named.item picked
        | setting => cases step

theorem Names.unique {other : Part} (first : Names block path part)
    (second : Names block path other) : part = other := by
  rw [names_iff] at first second
  exact Option.some.inj (first.symm.trans second)

theorem ambiguous_iff {whole : Accessor} : Ambiguous block whole setting ↔
    ∃ path segment, whole = path ++ [segment] ∧
      ∃ before, (Part.block block).follow? path = some before ∧
        before.besides? segment = some setting := by
  constructor
  · rintro ⟨path, first, others, key, same, named, nested, found⟩
    refine ⟨path, .key key, same, _, names_iff.mp named, ?_⟩
    rw [Part.besides?, if_neg nested, found]
  · rintro ⟨path, segment, same, before, reached, besides⟩
    cases before with
    | kind first others =>
        cases segment with
        | key key =>
            rw [Part.besides?] at besides
            split at besides
            · cases besides
            · next nested =>
                exact ⟨path, first, others, key, same, names_iff.mpr reached, nested, besides⟩
        | index => cases besides
    | _ => cases besides

/-! ## What a search comes to -/

namespace Part

variable {start next : Part} {segment : Segment}

/-- The part that the steps lead to until one of them leads nowhere. -/
def deepest : Part → Accessor → Part
  | part, [] => part
  | part, segment :: rest =>
      match part.step? segment with
      | some next => next.deepest rest
      | none => part

/-- The first setting that a segment leads to besides blocks. -/
def firstBesides? : Part → Accessor → Option Setting
  | _, [] => none
  | part, segment :: rest =>
      (part.besides? segment).or ((part.step? segment).bind fun next => next.firstBesides? rest)

/-- Where a search is when it has come to a part; it ends with a setting. -/
def found? : Part → Option SourceBlock.Found
  | .block inner => some (.inside inner)
  | .kind first others => some (.among (first :: others))
  | .setting _ => none

theorem deepest_setting (setting : Setting) (accessor : Accessor) :
    (Part.setting setting).deepest accessor = .setting setting := by
  cases accessor <;> rfl

theorem firstBesides?_setting (setting : Setting) (accessor : Accessor) :
    (Part.setting setting).firstBesides? accessor = none := by
  cases accessor <;> rfl

/-- A search ends with the first setting besides blocks, or else with the deepest part. -/
theorem locateIn_eq {found : SourceBlock.Found} (stands : start.found? = some found) :
    SourceBlock.locateIn start.span found accessor =
      ((start.firstBesides? accessor).map Setting.span).getD (start.deepest accessor).span := by
  induction accessor generalizing start found with
  | nil => rw [SourceBlock.locateIn, firstBesides?, deepest]; rfl
  | cons segment rest induction =>
      cases start with
      | setting => cases stands
      | block inner =>
          cases stands
          cases segment with
          | index => rfl
          | key key =>
              rw [SourceBlock.locateIn, firstBesides?, deepest, step?, inside?]
              cases inner.body.blocksOf key with
              | cons first others => exact @induction (.kind first others) _ rfl
              | nil =>
                  cases inner.body.setting? key with
                  | none => rfl
                  | some setting =>
                      simp [deepest_setting, firstBesides?_setting, besides?, Part.span]
      | kind first others =>
          cases stands
          cases segment with
          | index position =>
              rw [SourceBlock.locateIn, firstBesides?, deepest, step?]
              cases (first :: others)[position]? with
              | none => rfl
              | some inner => exact @induction (.block inner) _ rfl
          | key key =>
              rw [SourceBlock.locateIn, firstBesides?, deepest, step?, inside?, besides?]
              cases inner : first.body.setting? key with
              | none =>
                  cases nested : first.body.blocksOf key with
                  | nil => simp [Part.span]
                  | cons nestedFirst nestedOthers =>
                      have onward := @induction (.kind nestedFirst nestedOthers) _ rfl
                      simpa [nested, Part.span] using onward
              | some setting =>
                  cases nested : first.body.blocksOf key with
                  | nil => simp [deepest_setting, firstBesides?_setting, Part.span]
                  | cons nestedFirst nestedOthers => simp

theorem deepest_append (reached : start.follow? path = some next) (rest : Accessor) :
    start.deepest (path ++ rest) = next.deepest rest := by
  induction path generalizing start with
  | nil =>
      cases reached
      rfl
  | cons segment path induction =>
      rw [follow?_cons] at reached
      rcases Option.bind_eq_some_iff.mp reached with ⟨between, step, further⟩
      rw [List.cons_append, deepest, step]
      exact induction further

theorem firstBesides?_append (reached : start.follow? path = some next) (rest : Accessor) :
    start.firstBesides? (path ++ rest) =
      (start.firstBesides? path).or (next.firstBesides? rest) := by
  induction path generalizing start with
  | nil =>
      cases reached
      rfl
  | cons segment path induction =>
      rw [follow?_cons] at reached
      rcases Option.bind_eq_some_iff.mp reached with ⟨between, step, further⟩
      rw [List.cons_append, firstBesides?, firstBesides?, step, Option.bind_some,
        Option.bind_some, induction further, Option.or_assoc]

/-- Picking the first block of a kind does not change where a key after them leads. -/
theorem span_deepest_first (first : Block) (others : List Block) (key : String) :
    ((kind first others).deepest [.index 0, .key key]).span =
      ((kind first others).deepest [.key key]).span := by
  have picked : (kind first others).step? (.index 0) = some (.block first) := rfl
  have inside : (kind first others).step? (.key key) = (Part.block first).step? (.key key) := rfl
  simp only [deepest, picked, inside]
  cases (Part.block first).step? (.key key) <;> rfl

/-- The deepest part is what the longest start of an accessor leads to that leads anywhere. -/
theorem exists_deepest (start : Part) (accessor : Accessor) : ∃ path, path <+: accessor ∧
    start.follow? path = some (start.deepest accessor) ∧
    ∀ longer other, longer <+: accessor → start.follow? longer = some other →
      longer <+: path := by
  induction accessor generalizing start with
  | nil => exact ⟨[], List.prefix_rfl, rfl, fun longer _ within _ => within⟩
  | cons segment rest induction =>
      rw [deepest]
      cases step : start.step? segment with
      | none =>
          refine ⟨[], List.nil_prefix, rfl, ?_⟩
          intro longer other within reached
          rcases List.prefix_cons_iff.mp within with rfl | ⟨further, rfl, _⟩
          · exact List.prefix_rfl
          · rw [follow?_cons, step] at reached
            cases reached
      | some next =>
          rcases induction next with ⟨path, starts, reached, longest⟩
          refine ⟨segment :: path, (List.prefix_cons_inj segment).mpr starts, ?_, ?_⟩
          · rw [follow?_cons, step, Option.bind_some, reached]
          · intro longer other within led
            rcases List.prefix_cons_iff.mp within with rfl | ⟨further, rfl, inRest⟩
            · exact List.nil_prefix
            · rw [follow?_cons, step, Option.bind_some] at led
              exact (List.prefix_cons_inj segment).mpr (longest further other inRest led)

/-- Whether the last segment of a path leads to a setting besides blocks. -/
def Besides (start : Part) (whole : Accessor) (setting : Setting) : Prop :=
  ∃ path segment, whole = path ++ [segment] ∧
    ∃ before, start.follow? path = some before ∧ before.besides? segment = some setting

theorem Besides.ne_nil (besides : start.Besides path setting) : path ≠ [] := by
  rcases besides with ⟨front, segment, rfl, _⟩
  simp

theorem besides_cons {rest : Accessor} : start.Besides (segment :: rest) setting ↔
    rest = [] ∧ start.besides? segment = some setting ∨
      ∃ next, start.step? segment = some next ∧ next.Besides rest setting := by
  constructor
  · rintro ⟨path, last, same, before, reached, besides⟩
    cases path with
    | nil =>
        cases same
        cases reached
        exact .inl ⟨rfl, besides⟩
    | cons first path =>
        cases same
        rw [follow?_cons] at reached
        rcases Option.bind_eq_some_iff.mp reached with ⟨next, step, reached⟩
        exact .inr ⟨next, step, path, last, rfl, before, reached, besides⟩
  · rintro (⟨rfl, besides⟩ | ⟨next, step, path, last, rfl, before, reached, besides⟩)
    · exact ⟨[], segment, rfl, start, rfl, besides⟩
    · refine ⟨segment :: path, last, rfl, before, ?_, besides⟩
      rw [follow?_cons, step, Option.bind_some, reached]

/-- Whether a setting is the one at the end of the shortest path that leads to one besides
blocks. -/
def FirstBesides (start : Part) (accessor : Accessor) (setting : Setting) : Prop :=
  ∃ whole, whole <+: accessor ∧ start.Besides whole setting ∧
    ∀ shorter other, shorter <+: accessor → start.Besides shorter other → whole <+: shorter

theorem firstBesides_of_some {given : Setting} {rest : Accessor}
    (here : start.besides? segment = some given) :
    start.FirstBesides (segment :: rest) setting ↔ given = setting := by
  have atOnce : start.Besides [segment] given := besides_cons.mpr (.inl ⟨rfl, here⟩)
  constructor
  · rintro ⟨whole, within, besides, first⟩
    have atMost := first [segment] given ⟨rest, rfl⟩ atOnce
    rcases List.prefix_cons_iff.mp atMost with rfl | ⟨further, rfl, nothing⟩
    · exact absurd rfl besides.ne_nil
    · rw [List.prefix_nil.mp nothing] at besides
      rcases besides_cons.mp besides with ⟨_, same⟩ | ⟨_, _, none⟩
      · exact Option.some.inj (here.symm.trans same)
      · exact absurd rfl none.ne_nil
  · rintro rfl
    refine ⟨[segment], ⟨rest, rfl⟩, atOnce, ?_⟩
    intro shorter other within besides
    rcases List.prefix_cons_iff.mp within with rfl | ⟨further, rfl, _⟩
    · exact absurd rfl besides.ne_nil
    · exact ⟨further, rfl⟩

/-- Whatever is besides blocks comes after the step that the first segment leads to, if nothing
is besides blocks there. -/
theorem exists_step_of_besides {rest whole : Accessor} (nothing : start.besides? segment = none)
    (within : whole <+: segment :: rest) (besides : start.Besides whole setting) :
    ∃ next further, start.step? segment = some next ∧ whole = segment :: further ∧
      further <+: rest ∧ next.Besides further setting := by
  rcases List.prefix_cons_iff.mp within with rfl | ⟨further, rfl, inRest⟩
  · exact absurd rfl besides.ne_nil
  · rcases besides_cons.mp besides with ⟨_, same⟩ | ⟨next, step, besides⟩
    · cases nothing.symm.trans same
    · exact ⟨next, further, step, rfl, inRest, besides⟩

theorem firstBesides_of_none {rest : Accessor} (nothing : start.besides? segment = none) :
    start.FirstBesides (segment :: rest) setting ↔
      ∃ next, start.step? segment = some next ∧ next.FirstBesides rest setting := by
  constructor
  · rintro ⟨whole, within, besides, first⟩
    rcases exists_step_of_besides nothing within besides with
      ⟨next, further, step, rfl, inRest, later⟩
    refine ⟨next, step, further, inRest, later, ?_⟩
    intro shorter other inAccessor alsoBesides
    have whole := first (segment :: shorter) other
      ((List.prefix_cons_inj segment).mpr inAccessor)
      (besides_cons.mpr (.inr ⟨next, step, alsoBesides⟩))
    exact (List.prefix_cons_inj segment).mp whole
  · rintro ⟨next, step, whole, within, besides, first⟩
    refine ⟨segment :: whole, (List.prefix_cons_inj segment).mpr within,
      besides_cons.mpr (.inr ⟨next, step, besides⟩), ?_⟩
    intro shorter other inAccessor alsoBesides
    rcases exists_step_of_besides nothing inAccessor alsoBesides with
      ⟨_, further, same, rfl, inRest, later⟩
    cases step.symm.trans same
    exact (List.prefix_cons_inj segment).mpr (first further other inRest later)

theorem firstBesides?_eq_some_iff :
    start.firstBesides? accessor = some setting ↔ start.FirstBesides accessor setting := by
  induction accessor generalizing start with
  | nil =>
      constructor
      · intro first
        cases first
      · rintro ⟨whole, within, besides, _⟩
        exact absurd (List.prefix_nil.mp within) besides.ne_nil
  | cons segment rest induction =>
      rw [firstBesides?]
      cases here : start.besides? segment with
      | some given => rw [firstBesides_of_some here, Option.some_or, Option.some.injEq]
      | none =>
          rw [firstBesides_of_none here, Option.none_or, Option.bind_eq_some_iff]
          simp only [induction]

end Part

theorem deepest_iff : Deepest block accessor part ↔ part = (Part.block block).deepest accessor := by
  rcases (Part.block block).exists_deepest accessor with ⟨path, within, reached, longest⟩
  constructor
  · rintro ⟨other, inAccessor, named, alsoLongest⟩
    have upward := longest other part inAccessor (names_iff.mp named)
    have downward := alsoLongest path _ within (names_iff.mpr reached)
    rw [upward.eq_of_length_le downward.length_le] at named
    exact named.unique (names_iff.mpr reached)
  · rintro rfl
    exact ⟨path, within, names_iff.mpr reached, fun longer other inAccessor named =>
      longest longer other inAccessor (names_iff.mp named)⟩

theorem firstAmbiguous_iff : FirstAmbiguous block accessor setting ↔
    (Part.block block).firstBesides? accessor = some setting := by
  rw [Part.firstBesides?_eq_some_iff, FirstAmbiguous]
  simp only [ambiguous_iff]
  rfl

end Block

namespace SourceBlock

open Block

theorem locate_eq (located : SourceBlock) (accessor : Accessor) :
    located.locate accessor = located.source.range
      ((((Part.block located.block).firstBesides? accessor).map Setting.span).getD
        ((Part.block located.block).deepest accessor).span) :=
  congrArg located.source.range (@Part.locateIn_eq accessor (.block located.block) _ rfl)

variable {located : SourceBlock}

/-- Both spellings of a key below the first block of a kind are searched alike unless it, or a
key before it, is ambiguous. -/
theorem locate_index_zero {path : Accessor} {first : Block} {others : List Block}
    (named : Names located.block path (.kind first others)) {key : String}
    (plain : ∀ setting, ¬FirstAmbiguous located.block (path ++ [.key key]) setting) :
    located.locate (path ++ [.key key]) = located.locate (path ++ [.index 0, .key key]) := by
  have reached := names_iff.mp named
  have nothing : (Part.block located.block).firstBesides? (path ++ [.key key]) = none := by
    rw [Option.eq_none_iff_forall_ne_some]
    intro setting found
    exact plain setting (firstAmbiguous_iff.mpr found)
  have before := nothing
  rw [Part.firstBesides?_append reached, Option.or_eq_none_iff] at before
  have alsoNothing : (Part.block located.block).firstBesides? (path ++ [.index 0, .key key]) =
      none := by
    rw [Part.firstBesides?_append reached, before.1]
    simp [Part.firstBesides?, Part.besides?, Part.step?]
  rw [locate_eq, locate_eq, nothing, alsoNothing, Part.deepest_append reached,
    Part.deepest_append reached]
  exact congrArg located.source.range (Part.span_deepest_first first others key).symm

/-- A search comes to the deepest part that a start of the accessor names, and treats both
spellings of a key below the first block of a kind alike, exactly if no setting stands at a place
of its own where a key is ambiguous; otherwise it comes to the setting at the first such key. -/
theorem locate_deepest_iff (located : SourceBlock) (accessor : Accessor) :
    (∃ part, Deepest located.block accessor part) ∧
    (∀ part, Deepest located.block accessor part →
      (located.locate accessor = located.source.range part.span ↔
        ∀ setting, FirstAmbiguous located.block accessor setting →
          located.source.range setting.span = located.source.range part.span)) ∧
    (∀ setting, FirstAmbiguous located.block accessor setting →
      located.locate accessor = located.source.range setting.span) ∧
    ∀ path first others key, Names located.block path (.kind first others) →
      (located.locate (path ++ [.key key]) = located.locate (path ++ [.index 0, .key key]) ↔
        ∀ setting, FirstAmbiguous located.block (path ++ [.key key]) setting →
          located.source.range setting.span =
            located.locate (path ++ [.index 0, .key key])) := by
  have atSetting (accessor : Accessor) (setting : Setting)
      (ambiguous : FirstAmbiguous located.block accessor setting) :
      located.locate accessor = located.source.range setting.span := by
    rw [locate_eq, firstAmbiguous_iff.mp ambiguous, Option.map_some, Option.getD_some]
  refine ⟨⟨_, deepest_iff.mpr rfl⟩, ?_, atSetting accessor, ?_⟩
  · intro part deepest
    constructor
    · intro located setting ambiguous
      rw [← atSetting accessor setting ambiguous, located]
    · intro alike
      cases found : (Part.block located.block).firstBesides? accessor with
      | some setting =>
          have ambiguous := firstAmbiguous_iff.mpr found
          rw [atSetting accessor setting ambiguous, alike setting ambiguous]
      | none => rw [locate_eq, found, deepest_iff.mp deepest, Option.map_none, Option.getD_none]
  · intro path first others key named
    constructor
    · intro same setting ambiguous
      rw [← atSetting _ setting ambiguous, same]
    · intro alike
      by_cases plain : ∀ setting, ¬FirstAmbiguous located.block (path ++ [.key key]) setting
      · exact locate_index_zero named plain
      · simp only [not_forall, not_not] at plain
        rcases plain with ⟨setting, ambiguous⟩
        rw [atSetting _ setting ambiguous, alike setting ambiguous]

/-- A block with a block in which a key is both that of a setting and the kind of a block. -/
def tangledText : String :=
  "r \x7b\n  b \x7b\n    k = 1\n    k \x7b\n    \x7d\n  \x7d\n\x7d\n"

def tangledSetting : Setting := ⟨"k", ⟨14, 19⟩, .number (.integer 1)⟩

def tangledKind : Block := ⟨"k", [], ⟨24, 33⟩, [], []⟩

def tangled : SourceBlock :=
  ⟨⟨"main.tf", tangledText⟩,
    ⟨"r", [], ⟨0, 39⟩, [], [⟨"b", [], ⟨6, 37⟩, [tangledSetting], [tangledKind]⟩]⟩⟩

/-- With an index the blocks are found, and without it the setting. -/
theorem locate_deepest_iff_tangled :
    Deepest tangled.block [.key "b", .index 0, .key "k"] (.kind tangledKind []) ∧
    (tangled.locate [.key "b", .index 0, .key "k"]).text = "main.tf:4:5-5:6" ∧
    FirstAmbiguous tangled.block [.key "b", .key "k"] tangledSetting ∧
    (tangled.locate [.key "b", .key "k"]).text = "main.tf:3:5-3:10" := by
  have deepest : Deepest tangled.block [.key "b", .index 0, .key "k"] (.kind tangledKind []) :=
    deepest_iff.mpr rfl
  have ambiguous : FirstAmbiguous tangled.block [.key "b", .key "k"] tangledSetting :=
    firstAmbiguous_iff.mpr rfl
  have plain (setting : Setting) :
      ¬FirstAmbiguous tangled.block [.key "b", .index 0, .key "k"] setting := by
    intro first
    cases firstAmbiguous_iff.mp first
  have indexed := ((locate_deepest_iff tangled [.key "b", .index 0, .key "k"]).2.1 _ deepest).mpr
    fun setting first => absurd first (plain setting)
  have direct := (locate_deepest_iff tangled [.key "b", .key "k"]).2.2.1 _ ambiguous
  refine ⟨deepest, ?_, ambiguous, ?_⟩
  · rw [indexed]
    decide +kernel
  · rw [direct]
    decide +kernel

/-- A block of a text where a key below the blocks of a kind is located elsewhere than the same
key below the first of them. -/
theorem exists_spellings_apart : ∃ body block first others,
    Body.read? tangledText = some body ∧ body.findBlock? "r" [] = some block ∧
    Names block [.key "b"] (.kind first others) ∧
    (⟨⟨"main.tf", tangledText⟩, block⟩ : SourceBlock).locate [.key "b", .key "k"] ≠
      (⟨⟨"main.tf", tangledText⟩, block⟩ : SourceBlock).locate
        [.key "b", .index 0, .key "k"] := by
  have checked : (Body.read? tangledText).any (fun body =>
      (body.findBlock? "r" []).any fun block => !(block.body.blocksOf "b").isEmpty &&
        ((⟨⟨"main.tf", tangledText⟩, block⟩ : SourceBlock).locate [.key "b", .key "k"] ≠
          (⟨⟨"main.tf", tangledText⟩, block⟩ : SourceBlock).locate
            [.key "b", .index 0, .key "k"] : Bool)) = true := by decide +kernel
  rcases (Option.any_eq_true _ _).mp checked with ⟨body, read, checked⟩
  rcases (Option.any_eq_true _ _).mp checked with ⟨block, found, checked⟩
  simp only [Bool.and_eq_true, decide_eq_true_eq, Bool.not_eq_true', List.isEmpty_eq_false_iff]
    at checked
  rcases List.exists_cons_of_ne_nil checked.1 with ⟨first, others, nested⟩
  exact ⟨body, block, first, others, read, found, Names.whole.kind nested, checked.2⟩

end SourceBlock

end Groundplan
