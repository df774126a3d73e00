import Groundplan.Function.Numeric
import Groundplan.Proofs.Calls
import Groundplan.Proofs.Rounding
/-!
Functions over numbers, on integers. All of them compute with fractions, so they give the integer
they should as it is rounded: itself, as long as it has no more than 53 significant digits.
-/

namespace Groundplan.Function

open Binary64

/-! ## Calls -/

/-- Integers as arguments. -/
def integers (values : List Int) : List Datum := values.map fun value => .number (.integer value)

theorem check_integers (function : Function) (further : function.further = some .number)
    (position : Nat) (values : List Int) :
    function.check position [] (integers values) = .ok () :=
  check_further further position fun argument member => by
    rcases List.mem_map.mp member with ⟨value, -, rfl⟩
    rfl

theorem binaries_integers (values : List Int) : binaries (integers values) = values.map ofInt := by
  induction values with
  | nil => rfl
  | cons value rest induction =>
      rw [binaries, integers, List.map_cons, List.filterMap_cons]
      exact congrArg _ induction

/-! ## Results -/

/-- A result that is taken for an integer at once is the same number. -/
theorem numberResult_eq (value : Binary64) : numberResult value = finiteResult value := by
  rw [numberResult]
  split
  · next whole same =>
      split
      · next small =>
          have finite : value.isFinite = true := by
            cases value with
            | finite => rfl
            | infinite | notNumber => cases same
          have inside : Number.isIntegerRange whole = true := by
            rw [signedLimit] at small
            rw [Number.isIntegerRange, signedLimit, wordCount, Bool.and_eq_true,
              decide_eq_true_eq, decide_eq_true_eq]
            omega
          rw [finiteResult, if_pos finite, Number.ofBinary, same]
          dsimp only
          rw [if_pos inside]
      · rfl
  · rfl

/-- How an integer comes out of a computation with fractions. -/
structure Rounds (result : Except CallError Datum) (value : Int) : Prop where
  nearest : ∃ rounded, IsNearest value rounded ∧
    result = .ok (.number
      (if rounded < wordCount then .integer rounded else .binary (ofInt rounded)))
  exact_iff : result = .ok (.number (.integer value)) ↔ IsExact value

theorem rounds_numberResult {value : Int} (held : (Number.integer value).IsHeld) :
    Rounds (numberResult (ofInt value)) value := by
  have finite := isFinite_ofInt (Number.log2_lt_of_isHeld held).le
  rw [numberResult_eq, finiteResult, if_pos finite]
  refine ⟨⟨nearest value, isNearest_nearest value, ?_⟩, ?_⟩
  · rw [Number.ofBinary_ofInt held]
  · rw [← Number.ofBinary_ofInt_eq_iff held]
    simp

/-! ## Functions of one number -/

theorem call_ofBinary (change : Binary64 → Binary64) (value : Int) :
    (ofBinary change).call (integers [value]) = numberResult (change (ofInt value)) := rfl

theorem rounds_ofBinary {change : Binary64 → Binary64} {value changed : Int}
    (held : (Number.integer changed).IsHeld) (same : change (ofInt value) = ofInt changed) :
    Rounds ((ofBinary change).call (integers [value])) changed := by
  rw [call_ofBinary, same]
  exact rounds_numberResult held

theorem isHeld_natAbs {value : Int} (held : (Number.integer value).IsHeld) :
    (Number.integer value.natAbs).IsHeld := by
  cases held with
  | integer least most =>
      rw [signedLimit] at least
      rw [wordCount] at most
      exact .integer (by rw [signedLimit]; omega) (by rw [wordCount]; omega)

/-! ## Functions of all numbers -/

/-- Whether `pick` takes the same one of two integers, as fractions, as `choose`. -/
structure Picks (pick : Binary64 → Binary64 → Binary64) (choose : Int → Int → Int) : Prop where
  agrees : ∀ left right, (Number.integer left).IsHeld → (Number.integer right).IsHeld →
    pick (ofInt left) (ofInt right) = ofInt (choose left right)
  either : ∀ left right, choose left right = left ∨ choose left right = right

theorem picks_least : Picks Binary64.least min where
  agrees _ _ leftHeld rightHeld :=
    least_ofInt (Number.log2_lt_of_isHeld leftHeld) (Number.log2_lt_of_isHeld rightHeld)
  either := min_choice

theorem picks_greatest : Picks Binary64.greatest max where
  agrees _ _ leftHeld rightHeld :=
    greatest_ofInt (Number.log2_lt_of_isHeld leftHeld) (Number.log2_lt_of_isHeld rightHeld)
  either := max_choice

section All

variable {start : Binary64} {pick : Binary64 → Binary64 → Binary64} {choose : Int → Int → Int}
  (picks : Picks pick choose) {first : Int} {rest : List Int}
  (held : ∀ value ∈ first :: rest, (Number.integer value).IsHeld)

include picks held

/-- A row of integers is gone through as a row of their fractions, and the one that is taken in
the end is one of them. -/
theorem foldl_pick :
    (rest.map ofInt).foldl pick (ofInt first) = ofInt (rest.foldl choose first) ∧
      rest.foldl choose first ∈ first :: rest := by
  induction rest generalizing first with
  | nil => exact ⟨rfl, List.mem_cons_self⟩
  | cons next rest induction =>
      have firstHeld := held first List.mem_cons_self
      have nextHeld := held next (List.mem_cons_of_mem _ List.mem_cons_self)
      have others : ∀ value ∈ rest, (Number.integer value).IsHeld := fun value member =>
        held value (List.mem_cons_of_mem _ (List.mem_cons_of_mem _ member))
      rw [List.map_cons, List.foldl_cons, List.foldl_cons,
        picks.agrees first next firstHeld nextHeld]
      rcases picks.either first next with same | same <;> rw [same]
      · have later := induction (List.forall_mem_cons.mpr ⟨firstHeld, others⟩)
        exact ⟨later.1, List.mem_cons.mpr ((List.mem_cons.mp later.2).imp_right
          (List.mem_cons_of_mem _))⟩
      · have later := induction (List.forall_mem_cons.mpr ⟨nextHeld, others⟩)
        exact ⟨later.1, List.mem_cons_of_mem _ later.2⟩

theorem rounds_ofAll (begins : pick start (ofInt first) = ofInt first) :
    Rounds ((ofAll start pick).call (integers (first :: rest))) (rest.foldl choose first) := by
  have taken := foldl_pick picks held
  have run : (ofAll start pick).call (integers (first :: rest)) =
      numberResult ((binaries (integers (first :: rest))).foldl pick start) :=
    call_eq_run (Nat.succ_le_succ (Nat.zero_le _)) (by simp [ofAll])
      (check_integers _ rfl 1 rest)
  rw [run, binaries_integers, List.map_cons, List.foldl_cons, begins, taken.1]
  exact rounds_numberResult (held _ taken.2)

end All

theorem least_infinite {value : Int} (held : (Number.integer value).IsHeld) :
    Binary64.least (.infinite false) (ofInt value) = ofInt value := by
  have finite := isFinite_ofInt (Number.log2_lt_of_isHeld held).le
  cases made : ofInt value with
  | finite => rfl
  | infinite | notNumber => simp [made, isFinite] at finite

theorem greatest_infinite {value : Int} (held : (Number.integer value).IsHeld) :
    Binary64.greatest (.infinite true) (ofInt value) = ofInt value := by
  have finite := isFinite_ofInt (Number.log2_lt_of_isHeld held).le
  cases made : ofInt value with
  | finite => rfl
  | infinite | notNumber => simp [made, isFinite] at finite

/-- The functions over numbers give the least or the greatest of some integers, or the size or the
whole part of one, as it is rounded. -/
theorem integers_rounded {values : List Int} (nonempty : values ≠ [])
    (held : ∀ value ∈ values, (Number.integer value).IsHeld) :
    (∃ lowest ∈ values, (∀ value ∈ values, lowest ≤ value) ∧
      Rounds (least.call (integers values)) lowest) ∧
    (∃ highest ∈ values, (∀ value ∈ values, value ≤ highest) ∧
      Rounds (greatest.call (integers values)) highest) ∧
    ∀ value ∈ values,
      Rounds (absolute.call (integers [value])) value.natAbs ∧
      Rounds (ceiling.call (integers [value])) value ∧
      Rounds (floor.call (integers [value])) value := by
  refine ⟨?_, ?_, fun value member => ?_⟩
  · cases values with
    | nil => exact absurd rfl nonempty
    | cons first rest =>
        have lowest := List.min?_eq_some_iff.mp (@List.min?_cons' Int first _ rest)
        exact ⟨_, lowest.1, lowest.2,
          rounds_ofAll picks_least held (least_infinite (held first List.mem_cons_self))⟩
  · cases values with
    | nil => exact absurd rfl nonempty
    | cons first rest =>
        have highest := List.max?_eq_some_iff.mp (@List.max?_cons' Int first _ rest)
        exact ⟨_, highest.1, highest.2,
          rounds_ofAll picks_greatest held (greatest_infinite (held first List.mem_cons_self))⟩
  · have isHeld := held value member
    have fits := Number.log2_lt_of_isHeld isHeld
    exact ⟨rounds_ofBinary (isHeld_natAbs isHeld) (abs_ofInt value),
      rounds_ofBinary isHeld (ceil_ofInt fits), rounds_ofBinary isHeld (floor_ofInt fits)⟩

/-- The outermost integers, and the least natural number with more than 53 significant digits. -/
def outermost : List Int := [9007199254740993, -signedLimit, wordCount - 1]

theorem isHeld_outermost : ∀ value ∈ outermost, (Number.integer value).IsHeld := by
  have inside : ∀ value ∈ outermost, -(signedLimit : Int) ≤ value ∧ value < wordCount := by decide
  exact fun value member => .integer (inside value member).1 (inside value member).2

theorem integers_rounded_outermost :
    outermost ≠ [] ∧ (∀ value ∈ outermost, (Number.integer value).IsHeld) ∧
    least.call (integers outermost) = .ok (.number (.integer (-signedLimit))) ∧
    greatest.call (integers outermost) ≠ .ok (.number (.integer (wordCount - 1))) ∧
    absolute.call (integers [-signedLimit]) = .ok (.number (.integer signedLimit)) ∧
    floor.call (integers [9007199254740993]) ≠ .ok (.number (.integer 9007199254740993)) := by
  have nonempty : outermost ≠ [] := by decide
  rcases integers_rounded nonempty isHeld_outermost with
    ⟨⟨lowest, isLowest, below, low⟩, ⟨highest, isHighest, above, high⟩, each⟩
  have lowestIs : lowest = -signedLimit := by
    have least := below (-signedLimit) (by decide)
    exact Int.le_antisymm least ((by decide : ∀ value ∈ outermost, -(signedLimit : Int) ≤ value)
      lowest isLowest)
  have highestIs : highest = wordCount - 1 := by
    have most := above (wordCount - 1) (by decide)
    exact Int.le_antisymm ((by decide : ∀ value ∈ outermost, value ≤ (wordCount : Int) - 1)
      highest isHighest) most
  refine ⟨nonempty, isHeld_outermost, ?_, ?_, ?_, ?_⟩
  · exact lowestIs ▸ low.exact_iff.mpr (lowestIs ▸ ⟨-1, 63, by decide, by decide⟩)
  · intro same
    have exact : IsExact (wordCount - 1) := highestIs ▸ high.exact_iff.mp (highestIs ▸ same)
    rw [← nearest_eq_self_iff] at exact
    exact absurd exact (by decide)
  · exact (each (-signedLimit) (by decide)).1.exact_iff.mpr ⟨1, 63, by decide, by decide⟩
  · intro same
    have exact : IsExact 9007199254740993 := (each _ (by decide)).2.2.exact_iff.mp same
    rw [← nearest_eq_self_iff] at exact
    exact absurd exact (by decide)

/-- The greatest of some integers need not be among them. -/
theorem exists_greatest_elsewhere : ∃ values : List Int, values ≠ [] ∧
    (∀ value ∈ values, (Number.integer value).IsHeld) ∧
    ∃ other, greatest.call (integers values) = .ok (.number (.integer other)) ∧ other ∉ values := by
  refine ⟨[9007199254740993], by decide, ?_, 9007199254740992, rfl, by decide⟩
  exact fun value member =>
    isHeld_outermost value (List.mem_cons.mpr (.inl (List.mem_singleton.mp member)))

end Groundplan.Function
