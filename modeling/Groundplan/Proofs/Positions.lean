import Groundplan.Source
import Mathlib.Data.List.DropRight
import Mathlib.Data.String.Basic
/-!
Positions in a text. A search by halving among the starts of lines comes to the line that a byte
is in, and the columns before it are counted in characters. So a position says how many line
breaks are before it and how many characters follow the last of them.
-/

namespace Groundplan

/-! ## Halving -/

namespace Placement

/-- Every number is less than those behind it. -/
def Ascends (numbers : Array Nat) : Prop :=
  ∀ (first second : Nat) (inside : second < numbers.size) (before : first < second),
    numbers[first] < numbers[second]

/-- Whether a placement says where the wanted number belongs. -/
inductive Places (numbers : Array Nat) (wanted : Nat) : Placement → Prop where
  | found {index : Nat} (inside : index < numbers.size) (same : numbers[index] = wanted) :
      Places numbers wanted (.found index)
  | missing {index : Nat} (inside : index ≤ numbers.size)
      (below : ∀ (other : Nat) (isIndex : other < numbers.size), other < index →
        numbers[other] < wanted)
      (above : ∀ (other : Nat) (isIndex : other < numbers.size), index ≤ other →
        wanted < numbers[other]) :
      Places numbers wanted (.missing index)

section Search

variable {numbers : Array Nat} {wanted : Nat} (ascends : Ascends numbers)

include ascends

theorem Ascends.le {first second : Nat} (inside : second < numbers.size)
    (ordered : first ≤ second) : numbers[first] ≤ numbers[second] := by
  rcases Nat.lt_or_eq_of_le ordered with before | rfl
  · exact Nat.le_of_lt (ascends first second inside before)
  · exact Nat.le_refl _

/-- What is before the numbers that are searched is less than the wanted one, and what is behind
them is greater. -/
theorem places_searchFrom (low size : Nat) (inside : low + size ≤ numbers.size)
    (below : ∀ (other : Nat) (isIndex : other < numbers.size), other < low →
      numbers[other] < wanted)
    (above : ∀ (other : Nat) (isIndex : other < numbers.size), low + size ≤ other →
      wanted < numbers[other]) :
    Places numbers wanted (searchFrom numbers wanted low size inside) := by
  induction size using Nat.strongRecOn generalizing low with
  | ind size induction =>
      rw [searchFrom]
      split
      · next nonempty =>
          have isMiddle : low + size / 2 < numbers.size := by omega
          dsimp only
          split
          · next equal => exact .found isMiddle (Nat.compare_eq_eq.mp equal).symm
          · next after =>
              refine induction (size - size / 2 - 1) (by omega) _ _ ?_
                fun other isIndex behind => above other isIndex (by omega)
              intro other isIndex before
              exact Nat.lt_of_le_of_lt (ascends.le isMiddle (by omega))
                (Nat.compare_eq_gt.mp after)
          · next before =>
              refine induction (size / 2) (by omega) _ _ below ?_
              intro other isIndex behind
              exact Nat.lt_of_lt_of_le (Nat.compare_eq_lt.mp before) (ascends.le isIndex behind)
      · next empty =>
          exact .missing (by omega) below fun other isIndex behind =>
            above other isIndex (by omega)

theorem places_search : Places numbers wanted (search numbers wanted) :=
  places_searchFrom ascends 0 numbers.size _ (fun _ _ before => absurd before (Nat.not_lt_zero _))
    fun _ isIndex behind => absurd isIndex (by omega)

end Search

end Placement

namespace Position

/-- Where a text ends: one line for each of its line breaks and one more, one column for each
character of its last line and one more. -/
def behind (before : List Char) : Position :=
  ⟨before.count '\n' + 1, (before.rtakeWhile (· ≠ '\n')).length + 1, String.utf8Len before⟩

/-- Whether a position comes earlier, by its line and then by its column. -/
def Precedes (left right : Position) : Prop :=
  left.line < right.line ∨ left.line = right.line ∧ left.column < right.column

end Position

namespace LineIndex

open Placement String

/-! ## Lines -/

theorem startsFrom_append (byte : Nat) (before after : List Char) :
    startsFrom byte (before ++ after) =
      startsFrom byte before ++ startsFrom (byte + utf8Len before) after := by
  induction before generalizing byte with
  | nil => rfl
  | cons c rest induction =>
      rw [List.cons_append, startsFrom, startsFrom, utf8Len_cons]
      split
      · next isBreak =>
          have size : c.utf8Size = 1 := isBreak ▸ rfl
          rw [induction, List.cons_append, size]
          congr 3
          omega
      · rw [induction]
        congr 2
        omega

theorem length_startsFrom (byte : Nat) (chars : List Char) :
    (startsFrom byte chars).length = chars.count '\n' := by
  induction chars generalizing byte with
  | nil => rfl
  | cons c rest induction =>
      rw [startsFrom, List.count_cons]
      split
      · next isBreak => rw [List.length_cons, induction, isBreak, beq_self_eq_true, if_pos rfl]
      · next noBreak => rw [induction, beq_false_of_ne noBreak]; rfl

/-- Lines start behind the first byte, up to the end of the text. -/
theorem mem_startsFrom {byte start : Nat} {chars : List Char}
    (member : start ∈ startsFrom byte chars) : byte < start ∧ start ≤ byte + utf8Len chars := by
  induction chars generalizing byte with
  | nil => cases member
  | cons c rest induction =>
      have positive := c.utf8Size_pos
      rw [startsFrom] at member
      rw [utf8Len_cons]
      split at member
      · rcases List.mem_cons.mp member with rfl | later
        · omega
        · have bounds := induction later
          omega
      · have bounds := induction member
        omega

theorem pairwise_startsFrom (byte : Nat) (chars : List Char) :
    (byte :: startsFrom byte chars).Pairwise (· < ·) := by
  induction chars generalizing byte with
  | nil => exact List.pairwise_singleton _ _
  | cons c rest induction =>
      refine List.pairwise_cons.mpr ⟨fun start member => (mem_startsFrom member).1, ?_⟩
      rw [startsFrom]
      split
      · exact induction (byte + 1)
      · exact (induction (byte + c.utf8Size)).of_cons

theorem ascends_starts (text : String) : Ascends (ofText text).starts := by
  intro first second inside before
  exact List.pairwise_iff_getElem.mp (pairwise_startsFrom 0 text.toList) first second
    (Nat.lt_trans before inside) inside before

/-- The last line of a text starts behind its last line break. -/
theorem getLast_startsFrom (byte : Nat) (chars : List Char) :
    (byte :: startsFrom byte chars).getLast (List.cons_ne_nil _ _) =
      byte + utf8Len (chars.rdropWhile (· ≠ '\n')) := by
  induction chars using List.reverseRecOn with
  | nil => rfl
  | append_singleton chars c induction =>
      simp only [startsFrom_append, List.rdropWhile_concat, startsFrom]
      by_cases isBreak : c = '\n'
      · have size : '\n'.utf8Size = 1 := rfl
        simp [isBreak, utf8Len_append, size, Nat.add_assoc]
      · simpa [isBreak] using induction

section Split

variable {text : String} {before after : List Char} (split : text.toList = before ++ after)

include split

theorem toList_starts : (ofText text).starts.toList =
    (0 :: startsFrom 0 before) ++ startsFrom (utf8Len before) after := by
  have whole := startsFrom_append 0 before after
  rw [Nat.zero_add, ← split] at whole
  rw [ofText, List.cons_append, ← whole]

theorem count_lt_size : before.count '\n' < (ofText text).starts.size := by
  rw [← Array.length_toList, toList_starts split, List.length_append, List.length_cons,
    length_startsFrom]
  omega

/-- The lines that start at the end of a text or before it are those after its line breaks, and
the first. -/
theorem start_le_iff {index : Nat} (inside : index < (ofText text).starts.size) :
    (ofText text).starts[index] ≤ utf8Len before ↔ index ≤ before.count '\n' := by
  have listed : (ofText text).starts.toList[index]? = some (ofText text).starts[index] :=
    (Array.getElem?_toList).trans (Array.getElem?_eq_getElem inside)
  rw [toList_starts split] at listed
  have long : (0 :: startsFrom 0 before).length = before.count '\n' + 1 :=
    congrArg (· + 1) (length_startsFrom 0 before)
  rcases Nat.lt_or_ge (before.count '\n') index with behind | upTo
  · rw [List.getElem?_append_right (by omega)] at listed
    have bounds := mem_startsFrom (List.mem_of_getElem? listed)
    omega
  · rw [List.getElem?_append_left (by omega)] at listed
    rcases List.mem_cons.mp (List.mem_of_getElem? listed) with first | later
    · omega
    · have bounds := mem_startsFrom later
      omega

/-- A search for the end of a text never comes to a place before the first line. -/
theorem line?_eq : (ofText text).line? (utf8Len before) = some (before.count '\n') := by
  have ascends := ascends_starts text
  have isLine := count_lt_size split
  have placed : Places (ofText text).starts (utf8Len before) _ := places_search ascends
  have reached := (start_le_iff split isLine).mpr (Nat.le_refl _)
  rw [line?]
  generalize Placement.search (ofText text).starts (utf8Len before) = placement at placed
  cases placed with
  | @found index inside same =>
      have upTo := (start_le_iff split inside).mp (Nat.le_of_eq same)
      rcases Nat.lt_or_eq_of_le upTo with earlier | last
      · have before := ascends index _ isLine earlier
        omega
      · rw [last]
  | @missing index inside below above =>
      -- the line starts before the place of the byte, and the next line does not
      have behind : before.count '\n' < index := by
        refine Nat.lt_of_not_le fun upTo => ?_
        have greater := above _ isLine upTo
        omega
      obtain ⟨line, rfl⟩ := Nat.exists_eq_add_of_lt behind
      cases line with
      | zero => rfl
      | succ more =>
          have next : before.count '\n' + 1 < (ofText text).starts.size := by omega
          have upTo := (start_le_iff split next).mp (Nat.le_of_lt (below _ next (by omega)))
          omega

theorem start_eq : (ofText text).starts[before.count '\n']? =
    some (utf8Len (before.rdropWhile (· ≠ '\n'))) := by
  have long : (0 :: startsFrom 0 before).length = before.count '\n' + 1 :=
    congrArg (· + 1) (length_startsFrom 0 before)
  have last := getLast_startsFrom 0 before
  rw [Nat.zero_add, List.getLast_eq_getElem] at last
  rw [← Array.getElem?_toList, toList_starts split, List.getElem?_append_left (by omega), ← last,
    List.getElem?_eq_getElem (by omega)]
  simp only [long, Nat.add_sub_cancel]

end Split

/-! ## Columns -/

/-- A first character is within the bytes, and the others are what is left of them. -/
theorem exists_size (c : Char) (rest : List Char) : ∃ size, utf8Len (c :: rest) = size + 1 ∧
    c.utf8Size ≤ size + 1 ∧ size + 1 - c.utf8Size = utf8Len rest := by
  have positive := c.utf8Size_pos
  rw [utf8Len_cons]
  exact ⟨utf8Len rest + c.utf8Size - 1, by omega, by omega, by omega⟩

theorem dropBytes?_append (before after : List Char) :
    dropBytes? (utf8Len before) (before ++ after) = some after := by
  induction before with
  | nil => rw [utf8Len_nil, List.nil_append, dropBytes?]
  | cons c rest induction =>
      rcases exists_size c rest with ⟨size, isSize, within, others⟩
      rw [isSize, List.cons_append, dropBytes?, if_pos within, others, induction]

theorem takeBytes?_append (before after : List Char) :
    takeBytes? (utf8Len before) (before ++ after) = some before := by
  induction before with
  | nil => rw [utf8Len_nil, takeBytes?]
  | cons c rest induction =>
      rcases exists_size c rest with ⟨size, isSize, within, others⟩
      rw [isSize, List.cons_append, takeBytes?, if_pos within, others, induction, Option.map_some]

/-- What is between two bytes at which characters start. -/
theorem bind_takeBytes? (lines line after : List Char) :
    (dropBytes? (utf8Len lines) (lines ++ line ++ after)).bind
      (takeBytes? (utf8Len (lines ++ line) - utf8Len lines)) = some line := by
  rw [utf8Len_append, Nat.add_sub_cancel_left, List.append_assoc, dropBytes?_append,
    Option.bind_some, takeBytes?_append]

theorem position?_eq {text : String} {before after : List Char}
    (split : text.toList = before ++ after) :
    (ofText text).position? text (utf8Len before) = some (.behind before) := by
  have parts : before.rdropWhile (· ≠ '\n') ++ before.rtakeWhile (· ≠ '\n') = before :=
    List.rdropWhile_append_rtakeWhile
  have column := bind_takeBytes? (before.rdropWhile (· ≠ '\n'))
    (before.rtakeWhile (· ≠ '\n')) after
  rw [parts, ← split] at column
  rw [position?, line?_eq split]
  simp only [Option.bind_eq_bind, Option.bind_some, start_eq split, column]
  rfl

end LineIndex

namespace Position

/-- Further characters lead to a later position: to another line with a line break among them, and
else to a later column of the same line. -/
theorem precedes_behind (before : List Char) {more : List Char} (nonempty : more ≠ []) :
    (behind before).Precedes (behind (before ++ more)) := by
  rw [Precedes, behind, behind, List.count_append]
  by_cases breaks : '\n' ∈ more
  · have positive := List.count_pos_iff.mpr breaks
    left
    dsimp only
    omega
  · have positive := List.length_pos_iff.mpr nonempty
    have noBreaks : more.count '\n' = 0 := List.count_eq_zero.mpr breaks
    have kept : (before ++ more).rtakeWhile (· ≠ '\n') =
        before.rtakeWhile (· ≠ '\n') ++ more := by
      have others : ∀ c ∈ more.reverse, decide (c ≠ '\n') = true := by
        intro c member
        exact decide_eq_true fun same => breaks (same ▸ List.mem_reverse.mp member)
      rw [List.rtakeWhile, List.reverse_append, List.takeWhile_append_of_pos others,
        List.reverse_append, List.reverse_reverse, List.rtakeWhile]
    right
    rw [kept, List.length_append, noBreaks]
    dsimp only
    omega

end Position

/-! ## Positions of bytes -/

namespace Source

open String

/-- The characters of a source before a place in its text. -/
def before (source : Source) (place : source.text.Pos) : List Char :=
  (source.text.sliceTo place).copy.toList

theorem exists_split (source : Source) (place : source.text.Pos) :
    ∃ after, source.text.toList = source.before place ++ after ∧
      place.offset.byteIdx = utf8Len (source.before place) := by
  have splits := place.splits
  refine ⟨_, (congrArg String.toList splits.eq_append).trans String.toList_append, ?_⟩
  rw [splits.offset_eq_rawEndPos, before, ← utf8ByteSize_ofList, ofList_toList]
  rfl

theorem position_eq (source : Source) (place : source.text.Pos) :
    (LineIndex.ofText source.text).position? source.text place.offset.byteIdx =
      some (source.position place.offset.byteIdx) ∧
    source.position place.offset.byteIdx = .behind (source.before place) := by
  rcases source.exists_split place with ⟨after, split, size⟩
  have found := LineIndex.position?_eq split
  rw [position, size, found]
  exact ⟨rfl, rfl⟩

/-- Every byte at which a character starts, or the text ends, has the position that the line
breaks and the characters before it make, and later bytes have later positions. -/
theorem positions_exact (source : Source) :
    (∀ place : source.text.Pos,
      let byte := place.offset.byteIdx
      let index := LineIndex.ofText source.text
      Placement.search index.starts byte ≠ .missing 0 ∧
      index.position? source.text byte = some (source.position byte) ∧
      (source.position byte).line = 1 + (source.before place).count '\n' ∧
      (source.position byte).column =
        1 + ((source.before place).rtakeWhile (· ≠ '\n')).length ∧
      (source.position byte).byte = byte) ∧
    ∀ earlier later : source.text.Pos, earlier < later →
      (source.position earlier.offset.byteIdx).Precedes
        (source.position later.offset.byteIdx) := by
  constructor
  · intro place
    rcases source.exists_split place with ⟨after, split, size⟩
    have position := source.position_eq place
    refine ⟨fun before => ?_, position.1, ?_, ?_, ?_⟩
    · have line := LineIndex.line?_eq split
      rw [← size, LineIndex.line?, before] at line
      cases line
    · rw [position.2, Nat.add_comm]
      rfl
    · rw [position.2, Nat.add_comm]
      rfl
    · rw [position.2, size]
      rfl
  · intro earlier later before
    rcases (earlier.splits.lt_iff_exists_eq_append later.splits).mp before with
      ⟨more, nonempty, whole, -⟩
    have further : source.before later = source.before earlier ++ more.toList :=
      (congrArg String.toList whole).trans String.toList_append
    rw [(source.position_eq earlier).2, (source.position_eq later).2, further]
    exact Position.precedes_behind _ fun none => nonempty (String.toList_eq_nil_iff.mp none)

/-- Letters of two bytes, and a line without letters. -/
def accented : Source := ⟨"main.tf", "éa\n\nà"⟩

theorem positions_exact_accented : accented.text.startPos < accented.text.endPos ∧
    (accented.position 7).line = 3 ∧ (accented.position 7).column = 2 ∧
    (accented.position 0).Precedes (accented.position 7) := by
  have ordered : accented.text.startPos < accented.text.endPos := by decide
  have letters : accented.before accented.text.endPos = ['é', 'a', '\n', '\n', 'à'] := by
    decide +kernel
  have atEnd := (positions_exact accented).1 accented.text.endPos
  rw [letters] at atEnd
  exact ⟨ordered, atEnd.2.2.1, atEnd.2.2.2.1, (positions_exact accented).2 _ _ ordered⟩

end Source

end Groundplan
