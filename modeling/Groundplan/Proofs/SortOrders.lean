import Groundplan.Function.Collection
import Groundplan.Proofs.DecimalTexts
import Mathlib.Data.String.Basic
/-!
The order of sorting. Two strings compare by their characters and any other pair by its texts. As
the text of a string starts with a quotation mark, and every other text with a later character, all
strings come first, so this is one order.
-/

namespace Groundplan

/-! ## First characters of texts -/

/-- Whether a text starts with a character after the quotation mark. -/
def StartsAfterQuote (text : String) : Prop :=
  ∃ first rest, text.toList = first :: rest ∧ '"' < first

theorem StartsAfterQuote.append {text : String} (starts : StartsAfterQuote text) (more : String) :
    StartsAfterQuote (text ++ more) := by
  rcases starts with ⟨first, rest, same, after⟩
  exact ⟨first, rest ++ more.toList, by rw [String.toList_append, same]; rfl, after⟩

theorem startsAfterQuote_of_isDigit {first : Char} (rest : List Char)
    (digit : first.isDigit = true) : StartsAfterQuote (String.ofList (first :: rest)) := by
  refine ⟨first, rest, String.toList_ofList, ?_⟩
  have bounds := Char.isDigit_iff_toNat.mp digit
  exact Nat.lt_of_lt_of_le (by decide) bounds.1

theorem exists_first_digit (value : Nat) :
    ∃ first rest, Nat.toDigits 10 value = first :: rest ∧ first.isDigit = true := by
  have numeral := Decimal.isNumeral_toDigits value
  rcases List.exists_cons_of_ne_nil numeral.nonempty with ⟨first, rest, digits⟩
  exact ⟨first, rest, digits, numeral.isDigit first (digits ▸ List.mem_cons_self)⟩

theorem startsAfterQuote_decimal (style : Decimal.Style) (decimal : Decimal) :
    StartsAfterQuote (decimal.text style) := by
  rcases exists_first_digit decimal.digits with ⟨first, rest, digits, digit⟩
  rw [Decimal.text, digits]
  dsimp only
  split
  · split
    · exact startsAfterQuote_of_isDigit _ digit
    · split
      · exact startsAfterQuote_of_isDigit _ digit
      · exact startsAfterQuote_of_isDigit _ rfl
  · exact startsAfterQuote_of_isDigit _ digit

theorem startsAfterQuote_integer (value : Int) : StartsAfterQuote (toString value) := by
  rw [Int.toString_eq_repr, Int.repr_eq_if]
  split
  · rcases exists_first_digit value.toNat with ⟨first, rest, digits, digit⟩
    rw [Nat.repr_eq_ofList_toDigits, digits]
    exact startsAfterQuote_of_isDigit _ digit
  · exact StartsAfterQuote.append ⟨'-', [], rfl, by decide⟩ _

theorem startsAfterQuote_number (value : Number) : StartsAfterQuote value.text := by
  cases value with
  | integer value => exact startsAfterQuote_integer value
  | binary value =>
      rw [Number.text]
      cases value with
      | finite significand exponent =>
          rw [Binary64.text]
          split
          · exact StartsAfterQuote.append ⟨'-', [], rfl, by decide⟩ _
          · exact startsAfterQuote_decimal _ _
      | infinite negative =>
          cases negative <;> exact ⟨_, _, rfl, by decide⟩
      | notNumber => exact ⟨_, _, rfl, by decide⟩

/-- The text of anything but a string comes after all texts of strings. -/
theorem startsAfterQuote_text {datum : Datum} (other : ∀ value, datum ≠ .string value) :
    StartsAfterQuote datum.text := by
  rw [Datum.text]
  cases datum with
  | null => exact ⟨_, _, rfl, by decide⟩
  | bool value => cases value <;> exact ⟨_, _, rfl, by decide⟩
  | number value => exact startsAfterQuote_number value
  | string value => exact absurd rfl (other value)
  | list items =>
      cases items with
      | nil => exact ⟨_, _, rfl, by decide⟩
      | cons =>
          rw [Datum.textAt]
          refine .append (.append (.append (.append ?_ _) _) _) _
          exact ⟨'[', [], rfl, by decide⟩
  | object fields =>
      cases fields with
      | nil => exact ⟨_, _, rfl, by decide⟩
      | cons =>
          rw [Datum.textAt]
          refine .append (.append (.append (.append ?_ _) _) _) _
          exact ⟨'\x7b', [], rfl, by decide⟩

theorem toList_quote (text : String) : ∃ rest, (Datum.quote text).toList = '"' :: rest := by
  rw [Datum.quote]
  split
  · exact ⟨_, by rw [String.toList_append, String.toList_append]; rfl⟩
  · exact ⟨_, String.toList_ofList⟩

theorem StartsAfterQuote.lt {text quoted : String} (starts : StartsAfterQuote text)
    (quote : ∃ rest, quoted.toList = '"' :: rest) : quoted < text := by
  rcases starts with ⟨first, rest, same, after⟩
  rcases quote with ⟨others, quotation⟩
  rw [String.lt_iff_toList_lt, same, quotation]
  exact List.cons_lt_cons_iff.mpr (.inl after)

namespace Function

open Datum

/-! ## The order of sorting -/

/-- What a datum is sorted by: a string by itself, before every other datum. -/
def sortKey : Datum → String
  | .string value => "\"" ++ value
  | other => other.text

theorem sortOrder_of_not_string {left right : Datum}
    (other : ∀ first second, ¬(left = .string first ∧ right = .string second)) :
    sortOrder left right = (compare left.text right.text != .gt) := by
  cases left <;> cases right <;> first | rfl | exact absurd ⟨rfl, rfl⟩ (other _ _)

theorem sortKey_of_not_string {datum : Datum} (other : ∀ value, datum ≠ .string value) :
    sortKey datum = datum.text := by
  cases datum <;> first | rfl | exact absurd rfl (other _)

/-- A string comes before everything else. -/
theorem sortKey_string_lt {datum : Datum} (other : ∀ value, datum ≠ .string value)
    (text : String) : sortKey (.string text) < sortKey datum := by
  rw [sortKey_of_not_string other]
  exact (startsAfterQuote_text other).lt ⟨_, String.toList_append⟩

theorem bne_gt_iff (left right : String) : (compare left right != .gt) = true ↔ left ≤ right := by
  rw [bne_iff_ne, compare_le_iff_le]

theorem quote_le_quote_iff (left right : String) :
    "\"" ++ left ≤ "\"" ++ right ↔ left ≤ right := by
  rw [← not_lt, ← not_lt, String.lt_iff_toList_lt, String.lt_iff_toList_lt,
    String.toList_append, String.toList_append]
  exact not_congr List.cons_lt_cons_self

theorem sortOrder_iff (left right : Datum) :
    sortOrder left right = true ↔ sortKey left ≤ sortKey right := by
  by_cases leftString : ∃ first, left = .string first
  · rcases leftString with ⟨first, rfl⟩
    by_cases rightString : ∃ second, right = .string second
    · rcases rightString with ⟨second, rfl⟩
      exact (bne_gt_iff first second).trans (quote_le_quote_iff first second).symm
    · have other : ∀ second, right ≠ .string second := fun second same =>
        rightString ⟨second, same⟩
      rw [sortOrder_of_not_string fun _ second same => other second same.2, bne_gt_iff]
      exact iff_of_true ((startsAfterQuote_text other).lt (toList_quote first)).le
        (sortKey_string_lt other first).le
  · have other : ∀ first, left ≠ .string first := fun first same => leftString ⟨first, same⟩
    rw [sortOrder_of_not_string fun first _ same => other first same.1, bne_gt_iff]
    by_cases rightString : ∃ second, right = .string second
    · rcases rightString with ⟨second, rfl⟩
      exact iff_of_false ((startsAfterQuote_text other).lt (toList_quote second)).not_ge
        (sortKey_string_lt other second).not_ge
    · rw [sortKey_of_not_string other,
        sortKey_of_not_string fun second same => rightString ⟨second, same⟩]

theorem sortOrder_trans (first second third : Datum) (before : sortOrder first second = true)
    (after : sortOrder second third = true) : sortOrder first third = true := by
  rw [sortOrder_iff] at *
  exact before.trans after

theorem sortOrder_total (left right : Datum) :
    (sortOrder left right || sortOrder right left) = true := by
  rw [Bool.or_eq_true, sortOrder_iff, sortOrder_iff]
  exact le_total _ _

theorem pairwise_sortItems (items : List Datum) :
    (sortItems items).Pairwise fun left right => sortOrder left right = true :=
  List.pairwise_mergeSort sortOrder_trans sortOrder_total items

theorem mem_sortItems {items : List Datum} {item : Datum} :
    item ∈ sortItems items ↔ item ∈ items :=
  (List.mergeSort_perm items sortOrder).mem_iff

end Function

end Groundplan
