import Groundplan.Function.Conversion
import Groundplan.Proofs.NumericFunctions
import Mathlib.Data.List.TakeWhile
/-!
Integers and their decimal texts. Every integer has one decimal text, and the conversion to a text
gives it. The conversion back reads an integer as long as a signed word holds it; a greater one
is read as a fraction, so it is rounded.
-/

namespace Groundplan

namespace Decimal

/-! ## Numerals -/

/-- Decimal digits without a zero in front, unless it is the only one. -/
structure IsNumeral (digits : List Char) : Prop where
  nonempty : digits ≠ []
  isDigit : ∀ c ∈ digits, c.isDigit = true
  leading : digits.head? = some '0' → digits = ['0']

/-- The plain decimal text of an integer: its digits, after a minus sign if it is negative. -/
inductive Spells : List Char → Int → Prop where
  | natural {digits : List Char} (numeral : IsNumeral digits) :
      Spells digits (Nat.ofDigitChars 10 digits 0 : Nat)
  | negative {digits : List Char} (numeral : IsNumeral digits) (nonzero : digits ≠ ['0']) :
      Spells ('-' :: digits) (-(Nat.ofDigitChars 10 digits 0 : Nat))

theorem ofDigits_eq (digits : List Char) : ofDigits digits = Nat.ofDigitChars 10 digits 0 :=
  Nat.ofDigitChars_eq_foldl.symm

theorem bounds_of_isDigit {c : Char} (digit : c.isDigit = true) : 48 ≤ c.toNat ∧ c.toNat ≤ 57 :=
  Char.isDigit_iff_toNat.mp digit

theorem digitChar_of_isDigit {c : Char} (digit : c.isDigit = true) :
    (c.toNat - '0'.toNat).digitChar = c := by
  have bounds := bounds_of_isDigit digit
  have zero : '0'.toNat = 48 := rfl
  rw [← Char.toNat_inj, zero, Nat.toNat_digitChar_of_lt_ten (by omega)]
  omega

/-- Further digits go to the end of the digits of a positive number. -/
theorem toDigits_ofDigitChars_of_pos {start : Nat} (positive : 0 < start) {digits : List Char}
    (isDigit : ∀ c ∈ digits, c.isDigit = true) :
    Nat.toDigits 10 (Nat.ofDigitChars 10 digits start) = Nat.toDigits 10 start ++ digits := by
  induction digits generalizing start with
  | nil => rw [Nat.ofDigitChars_nil, List.append_nil]
  | cons c rest induction =>
      have first := isDigit c List.mem_cons_self
      have others : ∀ other ∈ rest, other.isDigit = true := fun other member =>
        isDigit other (List.mem_cons_of_mem _ member)
      have bounds := bounds_of_isDigit first
      have zero : '0'.toNat = 48 := rfl
      have small : c.toNat - '0'.toNat < 10 := by omega
      rw [Nat.ofDigitChars_cons, induction (by omega) others,
        ← Nat.toDigits_append_toDigits (by decide) positive small, Nat.toDigits_of_lt_base small,
        digitChar_of_isDigit first, List.append_assoc, List.singleton_append]

theorem toDigits_ofDigitChars {digits : List Char} (numeral : IsNumeral digits) :
    Nat.toDigits 10 (Nat.ofDigitChars 10 digits 0) = digits := by
  cases digits with
  | nil => exact absurd rfl numeral.nonempty
  | cons c rest =>
      have first := numeral.isDigit c List.mem_cons_self
      have bounds := bounds_of_isDigit first
      have zero : '0'.toNat = 48 := rfl
      by_cases leading : c = '0'
      · rw [numeral.leading (congrArg some leading)]
        decide
      · have nonzero : c.toNat ≠ 48 := fun same => leading (Char.toNat_inj.mp same)
        rw [Nat.ofDigitChars_cons, Nat.mul_zero, Nat.zero_add,
          toDigits_ofDigitChars_of_pos (by omega) fun other member =>
            numeral.isDigit other (List.mem_cons_of_mem _ member),
          Nat.toDigits_of_lt_base (by omega), digitChar_of_isDigit first, List.singleton_append]

theorem isNumeral_toDigits (value : Nat) : IsNumeral (Nat.toDigits 10 value) where
  nonempty := Nat.toDigits_ne_nil
  isDigit _ member := Nat.isDigit_of_mem_toDigits (by decide) (by decide) member
  leading := by
    induction value using Nat.strongRecOn with
    | ind value induction =>
        rcases Nat.lt_or_ge value 10 with small | large
        · rw [Nat.toDigits_of_lt_base small]
          intro same
          rw [List.head?_cons, Option.some.injEq] at same
          rw [same]
        · -- the digits in front are those of a smaller number, which is not zero
          intro same
          rw [Nat.toDigits_of_base_le (by decide) large, List.head?_append,
            Option.or_of_isSome (List.isSome_head?.mpr Nat.toDigits_ne_nil)] at same
          have digits := induction (value / 10) (by omega) same
          have zero := congrArg (Nat.ofDigitChars 10 · 0) digits
          rw [Nat.ofDigitChars_ten_toDigits] at zero
          change value / 10 = 0 at zero
          omega

theorem ofDigitChars_eq_zero_iff {digits : List Char} (numeral : IsNumeral digits) :
    Nat.ofDigitChars 10 digits 0 = 0 ↔ digits = ['0'] := by
  constructor
  · intro zero
    rw [← toDigits_ofDigitChars numeral, zero]
    rfl
  · rintro rfl
    rfl

/-- An integer has one decimal text. -/
theorem spells_iff {text : List Char} {value : Int} :
    Spells text value ↔ text = (toString value).toList := by
  rw [Int.toString_eq_repr, Int.repr_eq_if]
  constructor
  · intro spelled
    cases spelled with
    | natural numeral =>
        rw [if_pos (Int.natCast_nonneg _), Int.toNat_natCast, Nat.toList_repr,
          toDigits_ofDigitChars numeral]
    | @negative digits numeral nonzero =>
        have positive : Nat.ofDigitChars 10 digits 0 ≠ 0 := fun zero =>
          nonzero ((ofDigitChars_eq_zero_iff numeral).mp zero)
        rw [if_neg (by omega), Int.neg_neg, Int.toNat_natCast, String.toList_append,
          Nat.toList_repr, toDigits_ofDigitChars numeral]
        rfl
  · rintro rfl
    split
    · next least =>
        have spelled := Spells.natural (isNumeral_toDigits value.toNat)
        rwa [Nat.ofDigitChars_ten_toDigits, Int.toNat_of_nonneg least, ← Nat.toList_repr]
          at spelled
    · next below =>
        have nonzero : Nat.toDigits 10 (-value).toNat ≠ ['0'] := fun zero => by
          rw [← ofDigitChars_eq_zero_iff (isNumeral_toDigits _),
            Nat.ofDigitChars_ten_toDigits] at zero
          omega
        have spelled := Spells.negative (isNumeral_toDigits (-value).toNat) nonzero
        rw [Nat.ofDigitChars_ten_toDigits, Int.toNat_of_nonneg (by omega), Int.neg_neg,
          ← Nat.toList_repr] at spelled
        rwa [String.toList_append]

theorem Spells.inj {text : List Char} {left right : Int} (leftSpelled : Spells text left)
    (rightSpelled : Spells text right) : left = right := by
  cases leftSpelled with
  | natural leftNumeral =>
      cases rightSpelled with
      | natural => rfl
      | negative => exact absurd (leftNumeral.isDigit '-' List.mem_cons_self) (by decide)
  | negative leftNumeral =>
      generalize whole : '-' :: _ = text at rightSpelled
      cases rightSpelled with
      | natural rightNumeral =>
          rw [← whole] at rightNumeral
          exact absurd (rightNumeral.isDigit '-' List.mem_cons_self) (by decide)
      | negative =>
          rw [(List.cons.inj whole).2]

theorem Spells.isDigit {text : List Char} {value : Int} (spelled : Spells text value) {c : Char}
    (member : c ∈ text) : c = '-' ∨ c.isDigit = true := by
  cases spelled with
  | natural numeral => exact .inr (numeral.isDigit c member)
  | negative numeral =>
      exact (List.mem_cons.mp member).imp_right (numeral.isDigit c)

/-! ## Reading -/

section Numeral

variable {digits : List Char} (numeral : IsNumeral digits)

include numeral

theorem spanSign_numeral : spanSign digits = (false, digits) := by
  cases digits with
  | nil => rfl
  | cons c rest =>
      have first := numeral.isDigit c List.mem_cons_self
      rw [spanSign] <;>
      · intro _ same
        rw [(List.cons.inj same).1] at first
        exact absurd first (by decide)

theorem all_numeral : digits.all Char.isDigit = true :=
  List.all_eq_true.mpr numeral.isDigit

/-- A text that starts with a digit is no name of a number. -/
theorem name_ne {name : String} (letter : name.toList.head?.map Char.isDigit = some false) :
    String.ofList (digits.map Char.toLower) ≠ name := by
  rintro rfl
  cases digits with
  | nil => exact numeral.nonempty rfl
  | cons c rest =>
      have first := numeral.isDigit c List.mem_cons_self
      have bounds := bounds_of_isDigit first
      have below : ¬('A'.val ≤ c.val ∧ c.val ≤ 'Z'.val) := by
        rintro ⟨least, -⟩
        have least : 65 ≤ c.toNat := UInt32.le_iff_toNat_le.mp least
        omega
      have same : c.toLower = c := dif_neg below
      rw [String.toList_ofList, List.map_cons, List.head?_cons, Option.map_some, same, first]
        at letter
      cases letter

theorem spanDigits_numeral : spanDigits digits = (digits, []) := by
  rw [spanDigits, List.takeWhile_eq_self_iff.mpr numeral.isDigit,
    List.dropWhile_eq_nil_iff.mpr numeral.isDigit]

theorem read?_numeral : read? digits = some (Binary64.ofDecimal (ofDigits digits) 0) := by
  have inf : String.ofList (digits.map Char.toLower) ≠ "inf" := name_ne numeral rfl
  have infinity : String.ofList (digits.map Char.toLower) ≠ "infinity" := name_ne numeral rfl
  have nan : String.ofList (digits.map Char.toLower) ≠ "nan" := name_ne numeral rfl
  have nonempty : digits.isEmpty = false := List.isEmpty_eq_false_iff.mpr numeral.nonempty
  rw [read?, spanSign_numeral numeral]
  simp only [inf, infinity, nan, spanDigits_numeral numeral, nonempty, exponent?]
  rw [List.append_nil]
  rfl

end Numeral

end Decimal

/-- An integer read as a fraction of decimal digits is the fraction of the integer. -/
theorem Binary64.ofDecimal_zero {value : Int} (fits : value.natAbs.log2 < 64) :
    ofDecimal value 0 = ofInt value := by
  by_cases zero : value = 0
  · rw [zero]
    rfl
  · have tens : powerOfTen 0 = 1 := rfl
    rw [ofDecimal.eq_def]
    dsimp only
    rw [if_neg zero, if_neg (by omega), if_neg (by omega)]
    change ofRatio (value * (powerOfTen 0 : Nat)) 1 = ofInt value
    rw [tens, Int.natCast_one, Int.mul_one, ofInt]

namespace Function

open Decimal Binary64

/-! ## Conversions -/

theorem call_ofAny (run : Datum → Except CallError Datum) (datum : Datum) :
    (ofAny run).call [datum] = run datum := rfl

theorem toNumber_of_numberOfText? {text : String} {number : Number}
    (read : numberOfText? text = some number) :
    toNumber.call [.string text] = .ok (.number number) := by
  rw [toNumber, call_ofAny]
  dsimp only
  rw [read]

section Spelled

variable {text : String} {value : Int} (spelled : Spells text.toList value)

include spelled

theorem wholeNumber?_of_spells :
    wholeNumber? text.toList =
      if -(signedLimit : Int) ≤ value ∧ value < signedLimit then some value else none := by
  generalize text.toList = letters at *
  cases spelled with
  | natural numeral =>
      rw [wholeNumber?, spanSign_numeral numeral]
      dsimp only
      rw [all_numeral numeral, List.isEmpty_eq_false_iff.mpr numeral.nonempty, ofDigits_eq]
      simp
  | @negative digits numeral =>
      have sign : spanSign ('-' :: digits) = (true, digits) := rfl
      rw [wholeNumber?, sign]
      dsimp only
      rw [all_numeral numeral, List.isEmpty_eq_false_iff.mpr numeral.nonempty, ofDigits_eq]
      simp

theorem call_of_spells_small (least : -(signedLimit : Int) ≤ value) (most : value < signedLimit) :
    toNumber.call [.string text] = .ok (.number (.integer value)) := by
  apply toNumber_of_numberOfText?
  rw [numberOfText?, wholeNumber?_of_spells spelled, if_pos ⟨least, most⟩]

/-- An integer beyond the signed words is read as a fraction. -/
theorem call_of_spells_large (large : (signedLimit : Int) ≤ value)
    (held : (Number.integer value).IsHeld) :
    toNumber.call [.string text] = numberResult (ofInt value) := by
  have fits := Number.log2_lt_of_isHeld held
  have finite := isFinite_ofInt fits.le
  have beyond : wholeNumber? text.toList = none := by
    rw [wholeNumber?_of_spells spelled, if_neg (by omega)]
  have fraction : Decimal.read? text.toList = some (ofInt value) := by
    rw [← ofDecimal_zero fits]
    generalize text.toList = letters at *
    cases spelled with
    | natural numeral => rw [read?_numeral numeral, ofDigits_eq]
    | negative => rw [signedLimit] at large; omega
  rw [numberResult_eq, finiteResult, if_pos finite]
  apply toNumber_of_numberOfText?
  rw [numberOfText?, beyond, fraction]
  dsimp only
  rw [Option.bind_some, if_pos finite]

end Spelled

/-- Beyond the signed words the fractions stand 2048 apart. -/
theorem isExact_iff_dvd {value : Int} (large : (signedLimit : Int) ≤ value)
    (held : (Number.integer value).IsHeld) : IsExact value ↔ 2048 ∣ value := by
  cases held with
  | integer _ most =>
      rw [signedLimit] at large
      rw [wordCount] at most
      constructor
      · intro exact
        rcases isExact_iff.mp exact with ⟨significand, exponent, short, same⟩
        have digits : value.natAbs.log2 = 63 := by
          rw [Nat.log2_eq_iff (by omega)]
          omega
        have spaced : spacing value.natAbs = 2048 := by
          rw [spacing, digits]
          decide
        have divides := @spacing_dvd value.natAbs _ _ short (by rw [digits, ← same]; omega)
        rw [spaced, ← same] at divides
        exact Int.natCast_dvd.mpr divides
      · rintro ⟨count, same⟩
        exact ⟨count, 11, by omega, by omega⟩

theorem not_spells_rounded (value : Int) :
    ¬Spells ((Number.binary (ofInt wordCount)).text).toList value := by
  have text : (Number.binary (ofInt wordCount)).text = "1.8446744073709552e19" := by
    decide +kernel
  intro spelled
  rw [text] at spelled
  exact absurd (@Spells.isDigit _ _ spelled '.' (by decide)) (by decide)

theorem toString_inj {left right : Int} : toString left = toString right ↔ left = right := by
  constructor
  · intro same
    exact Spells.inj (spells_iff.mpr rfl) (spells_iff.mpr (congrArg String.toList same))
  · rintro rfl
    rfl

/-- A rounded integer has the text of the integer only if it is the integer. -/
theorem text_eq_iff {value : Int} (held : (Number.integer value).IsHeld) {number : Number}
    (rounds : Rounds (.ok (.number number)) value) :
    number.text = toString value ↔ number = .integer value := by
  rcases rounds.nearest with ⟨rounded, near, same⟩
  have same := Datum.number.inj (Except.ok.inj same)
  split at same
  · rw [same, Number.text, toString_inj, Number.integer.injEq]
  · next beyond =>
      -- the only integer beyond the words that is nearest to one of them is the first
      cases held with
      | integer least most =>
          have closest := near.closest wordCount ⟨1, 64, by decide, by decide⟩
          have first : rounded = wordCount := by omega
          rw [same, first]
          constructor
          · intro equal
            exact absurd (spells_iff.mpr (congrArg String.toList equal)) (not_spells_rounded value)
          · intro equal
            cases equal

/-- The conversions between integers and their decimal texts are inverse to each other on the
integers that signed words hold, and on the greater ones that are multiples of 2048. -/
theorem conversions_inverse_iff {value : Int} (held : (Number.integer value).IsHeld) :
    ∃ (text : String) (number : Number),
      (∀ other : String, Spells other.toList value ↔ other = text) ∧
      toText.call [.number (.integer value)] = .ok (.string text) ∧
      toNumber.call [.string text] = .ok (.number number) ∧
      ((signedLimit : Int) ≤ value → Rounds (.ok (.number number)) value) ∧
      (number = .integer value ↔ value < signedLimit ∨ 2048 ∣ value) ∧
      (toText.call [.number number] = .ok (.string text) ↔
        value < signedLimit ∨ 2048 ∣ value) := by
  have spelled : Spells (toString value).toList value := spells_iff.mpr rfl
  have unique : ∀ other : String, Spells other.toList value ↔ other = toString value := fun other =>
    spells_iff.trans String.toList_inj
  have printed : ∀ number : Number,
      toText.call [.number number] = .ok (.string (toString value)) ↔
        number.text = toString value := by
    intro number
    have run : toText.call [.number number] = .ok (.string number.text) := rfl
    rw [run, Except.ok.injEq, Datum.string.injEq]
  rcases lt_or_ge value signedLimit with small | large
  · have least : -(signedLimit : Int) ≤ value := by
      cases held with
      | integer least => exact least
    refine ⟨toString value, .integer value, unique, rfl,
      call_of_spells_small spelled least small, ?_, ?_, ?_⟩
    · intro large
      omega
    · exact iff_of_true rfl (.inl small)
    · exact iff_of_true rfl (.inl small)
  · have rounds := rounds_numberResult held
    obtain ⟨number, result⟩ : ∃ number, numberResult (ofInt value) = .ok (.number number) :=
      rounds.nearest.elim fun _ near => ⟨_, near.2⟩
    rw [result] at rounds
    have exact_iff : number = .integer value ↔ value < signedLimit ∨ 2048 ∣ value := by
      have whole := rounds.exact_iff
      rw [Except.ok.injEq, Datum.number.injEq, isExact_iff_dvd large held] at whole
      rw [whole, or_iff_right (by omega)]
    refine ⟨toString value, number, unique, rfl,
      (call_of_spells_large spelled large held).trans result, fun _ => rounds, exact_iff, ?_⟩
    rw [printed, text_eq_iff held rounds, exact_iff]

theorem conversions_inverse_iff_beyond :
    (Number.integer (signedLimit + 1)).IsHeld ∧ ∃ (text : String) (number : Number),
      Spells text.toList (signedLimit + 1) ∧
      toText.call [.number (.integer (signedLimit + 1))] = .ok (.string text) ∧
      toNumber.call [.string text] = .ok (.number number) ∧
      number ≠ .integer (signedLimit + 1) ∧
      toText.call [.number number] ≠ .ok (.string text) := by
  have held : (Number.integer (signedLimit + 1)).IsHeld := .integer (by decide) (by decide)
  rcases conversions_inverse_iff held with
    ⟨text, number, unique, printed, read, -, back, again⟩
  have outside : ¬((signedLimit : Int) + 1 < signedLimit ∨ 2048 ∣ (signedLimit : Int) + 1) := by
    decide
  exact ⟨held, text, number, (unique text).mpr rfl, printed, read,
    fun same => outside (back.mp same), fun same => outside (again.mp same)⟩

/-- A great integer does not come back from its text. -/
theorem exists_integer_changed : ∃ (value other : Int) (text : String),
    (Number.integer value).IsHeld ∧ toText.call [.number (.integer value)] = .ok (.string text) ∧
      toNumber.call [.string text] = .ok (.number (.integer other)) ∧ other ≠ value :=
  ⟨9223372036854775809, 9223372036854775808, "9223372036854775809",
    .integer (by decide) (by decide), rfl, toNumber_of_numberOfText? (by decide +kernel),
    by decide⟩

end Function

end Groundplan
