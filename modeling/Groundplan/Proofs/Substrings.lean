import Groundplan.Function.Text
import Groundplan.Proofs.Calls
/-!
Substrings. The bounds of a piece are computed with saturating sums of words, and the piece is cut
out unchecked. Both are of no account: the bounds are those of sums without limits, and they are
positions of the text in order.
-/

namespace Groundplan.Function

/-! ## Bounds -/

/-- Where a piece starts, computed with integers of any size. -/
def pieceStart (size offset : Int) : Int :=
  max 0 (min (if offset < 0 then size + offset else offset) size)

/-- Where a piece stops, computed with integers of any size. -/
def pieceStop (size start length : Int) : Int :=
  if length < 0 then size else min (start + length) size

/-- The items at the positions from `start` up to but not including `stop`. -/
def itemsBetween (items : List α) (start stop : Int) : List α :=
  (items.zipIdx.filter fun entry => start ≤ entry.2 ∧ (entry.2 : Int) < stop).map Prod.fst

section Bounds

variable {size offset length start : Int}

theorem pieceStart_mem (natural : 0 ≤ size) : 0 ≤ pieceStart size offset ∧
    pieceStart size offset ≤ size := by
  rw [pieceStart]
  omega

theorem pieceStop_mem (most : start ≤ size) : start ≤ pieceStop size start length ∧
    pieceStop size start length ≤ size := by
  rw [pieceStop]
  split <;> omega

/-- No sum of the bounds is cut off where it counts. -/
theorem substringBounds_eq (natural : 0 ≤ size) (small : size < signedLimit)
    (least : -(signedLimit : Int) ≤ offset) :
    substringBounds size offset length =
      (pieceStart size offset, pieceStop size (pieceStart size offset) length) := by
  have start : max 0 (min size (if offset < 0 then saturatingSum size offset else offset)) =
      pieceStart size offset := by
    rw [pieceStart, saturatingSum]
    split <;> omega
  have inside := @pieceStart_mem size offset natural
  rw [substringBounds, start, pieceStop, saturatingSum]
  congr 1
  split <;> omega

end Bounds

/-! ## Pieces -/

/-- Among items counted from `first` on, those between two positions are a run of them. -/
theorem filter_zipIdx_between (items : List α) (first start stop : Nat) :
    ((items.zipIdx first).filter fun entry => start ≤ entry.2 ∧ entry.2 < stop).map Prod.fst =
      (items.drop (start - first)).take (stop - max start first) := by
  induction items generalizing first with
  | nil => simp
  | cons item rest induction =>
      rw [List.zipIdx_cons]
      rcases Nat.lt_or_ge first start with before | reached
      · have skipped : start - first = start - (first + 1) + 1 := by omega
        rw [List.filter_cons_of_neg (by simp; omega), induction, skipped, List.drop_succ_cons]
        congr 2
        omega
      · have none : start - first = 0 ∧ start - (first + 1) = 0 := by omega
        rw [none.1, List.drop_zero]
        rcases Nat.lt_or_ge first stop with inside | beyond
        · have more : stop - max start first = stop - max start (first + 1) + 1 := by omega
          rw [List.filter_cons_of_pos (by simp; omega), List.map_cons, induction, none.2,
            List.drop_zero, more, List.take_succ_cons]
        · have all : stop - max start first = 0 ∧ stop - max start (first + 1) = 0 := by omega
          rw [List.filter_cons_of_neg (by simp; omega), induction, all.1, all.2, List.take_zero,
            List.take_zero]

theorem itemsBetween_eq (items : List α) (start stop : Nat) :
    itemsBetween items start stop = (items.drop start).take (stop - start) := by
  have run := filter_zipIdx_between items 0 start stop
  rw [Nat.sub_zero, Nat.max_zero] at run
  rw [itemsBetween, ← run]
  simp only [Int.ofNat_le, Int.ofNat_lt]

/-- Positions of a list in order bound a piece of it. -/
theorem between?_eq_some {items : List α} {start stop : Int} (least : 0 ≤ start)
    (ordered : start ≤ stop) (most : stop ≤ items.length) :
    between? items start.toNat stop.toNat = some (itemsBetween items start stop) := by
  obtain ⟨last, rfl⟩ := Int.eq_ofNat_of_zero_le (Int.le_trans least ordered)
  obtain ⟨first, rfl⟩ := Int.eq_ofNat_of_zero_le least
  rw [Int.toNat_natCast, Int.toNat_natCast, itemsBetween_eq, between?, if_pos (by omega)]

theorem wholeArgument_word {arguments : List Datum} {position : Nat} {word : Int64}
    (same : argument arguments position = .number (.integer word.toInt)) :
    wholeArgument arguments position = .ok word.toInt := by
  have most := word.toInt_lt
  exact wholeArgument_of_lt same (by rw [signedLimit]; omega)

/-- A substring is the characters between two positions, of any text that words can count and for
any two signed words. -/
theorem substring_call_eq (text : String) (offset length : Int64)
    (counted : (text.length : Int) < signedLimit) :
    substring.call
        [.string text, .number (.integer offset.toInt), .number (.integer length.toInt)] =
      .ok (.string (String.ofList (itemsBetween text.toList (pieceStart text.length offset.toInt)
        (pieceStop text.length (pieceStart text.length offset.toInt) length.toInt)))) := by
  have least := offset.le_toInt
  have bounds := @substringBounds_eq text.length offset.toInt length.toInt
    (Int.natCast_nonneg _) counted (by rw [signedLimit]; omega)
  have start := @pieceStart_mem text.length offset.toInt (Int.natCast_nonneg _)
  have stop := @pieceStop_mem text.length length.toInt _ start.2
  have cut := between?_eq_some start.1 stop.1 (String.length_toList ▸ stop.2)
  have run : substring.call
      [.string text, .number (.integer offset.toInt), .number (.integer length.toInt)] =
    substring.run
      [.string text, .number (.integer offset.toInt), .number (.integer length.toInt)] := rfl
  rw [run, substring]
  dsimp only
  rw [@wholeArgument_word _ 1 offset rfl, @wholeArgument_word _ 2 length rfl]
  dsimp only [stringArgument, argument, bind, Except.bind, List.getElem?_cons_zero,
    Option.getD_some]
  rw [String.length_toList, bounds, cut]
  rfl

theorem substring_call_eq_unlimited :
    (("abc".length : Int) < signedLimit) ∧
    substring.call [.string "abc", .number (.integer 1), .number (.integer (signedLimit - 1))] =
      .ok (.string "bc") ∧
    substring.call [.string "abc", .number (.integer (-signedLimit)), .number (.integer 2)] =
      .ok (.string "ab") := by
  have counted : (("abc".length : Int) < signedLimit) := by decide
  have ending := substring_call_eq "abc" 1 Int64.maxValue counted
  have beginning := substring_call_eq "abc" Int64.minValue 2 counted
  exact ⟨counted, ending, beginning⟩

end Groundplan.Function
