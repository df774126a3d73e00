import Groundplan.Proofs.Conversions
import Mathlib.Tactic.Ring
/-!
Rounding of integers to binary fractions. A fraction of 64 bits has 53 binary digits, so an
integer with more of them becomes the nearest one with 53 and zeros after them. The order of two
integers stays, but two of them can become one.
-/

namespace Groundplan

namespace Binary64

/-! ## Quotients -/

section Quotients

variable {size left right unit count : Nat}

/-- A quotient is rounded up or down by what is left of it, and a half to the even side. -/
theorem roundQuotient_cases (size unit : Nat) :
    (roundQuotient size unit = size / unit ∧
      (2 * (size % unit) < unit ∨ 2 * (size % unit) = unit ∧ size / unit % 2 = 0)) ∨
    (roundQuotient size unit = size / unit + 1 ∧
      (unit < 2 * (size % unit) ∨ 2 * (size % unit) = unit ∧ size / unit % 2 = 1)) := by
  rw [roundQuotient]
  split
  · next below => exact .inl ⟨rfl, .inl below⟩
  · split
    · next above => exact .inr ⟨rfl, .inl above⟩
    · split
      · next even => exact .inl ⟨rfl, .inr ⟨by omega, even⟩⟩
      · next odd => exact .inr ⟨rfl, .inr ⟨by omega, by omega⟩⟩

/-- A rounded quotient is off by half a unit at most. -/
theorem roundQuotient_bounds (size : Nat) (positive : 0 < unit) :
    2 * size ≤ 2 * (roundQuotient size unit * unit) + unit ∧
      2 * (roundQuotient size unit * unit) ≤ 2 * size + unit := by
  have whole := Nat.div_add_mod' size unit
  have below := Nat.mod_lt size positive
  have next : (size / unit + 1) * unit = size / unit * unit + unit := Nat.succ_mul _ _
  rcases roundQuotient_cases size unit with ⟨same, near⟩ | ⟨same, near⟩ <;> rw [same] <;> omega

theorem even_of_tie
    (tie : 2 * size = 2 * (roundQuotient size unit * unit) + unit ∨
      2 * (roundQuotient size unit * unit) = 2 * size + unit) (positive : 0 < unit) :
    roundQuotient size unit % 2 = 0 := by
  have whole := Nat.div_add_mod' size unit
  have below := Nat.mod_lt size positive
  have next : (size / unit + 1) * unit = size / unit * unit + unit := Nat.succ_mul _ _
  rcases roundQuotient_cases size unit with ⟨same, near⟩ | ⟨same, near⟩
  · rw [same] at tie ⊢
    omega
  · rw [same] at tie ⊢
    rw [next] at tie
    omega

theorem roundQuotient_mul (count : Nat) (positive : 0 < unit) :
    roundQuotient (count * unit) unit = count := by
  rcases roundQuotient_cases (count * unit) unit with ⟨same, _⟩ | ⟨_, near⟩
  · rw [same, Nat.mul_div_cancel _ positive]
  · rw [Nat.mul_mod_left] at near
    omega

theorem roundQuotient_mono (positive : 0 < unit) (least : left ≤ right) :
    roundQuotient left unit ≤ roundQuotient right unit := by
  by_contra above
  have apart : (roundQuotient right unit + 1) * unit ≤ roundQuotient left unit * unit :=
    Nat.mul_le_mul_right unit (by omega)
  rw [Nat.succ_mul] at apart
  have high := (roundQuotient_bounds left positive).2
  have low := (roundQuotient_bounds right positive).1
  have same : left = right := by omega
  exact above (same ▸ Nat.le_refl _)

theorem le_roundQuotient (positive : 0 < unit) (least : count * unit ≤ size) :
    count ≤ roundQuotient size unit :=
  roundQuotient_mul count positive ▸ roundQuotient_mono positive least

theorem roundQuotient_le (positive : 0 < unit) (most : size ≤ count * unit) :
    roundQuotient size unit ≤ count :=
  roundQuotient_mul count positive ▸ roundQuotient_mono positive most

/-- No multiple of the unit is nearer than the rounded one. -/
theorem roundQuotient_closest (size count : Nat) (positive : 0 < unit) :
    ((size : Int) - (roundQuotient size unit * unit : Nat)).natAbs ≤
      ((size : Int) - (count * unit : Nat)).natAbs := by
  have bounds := roundQuotient_bounds size positive
  rcases Nat.lt_trichotomy count (roundQuotient size unit) with below | same | above
  · have apart := Nat.mul_le_mul_right unit below
    rw [Nat.succ_mul] at apart
    omega
  · rw [same]
  · have apart := Nat.mul_le_mul_right unit above
    rw [Nat.succ_mul] at apart
    omega

/-- Where another multiple of the unit is as near, the rounded quotient is even. -/
theorem even_of_equally_near (positive : 0 < unit) (different : count ≠ roundQuotient size unit)
    (tie : ((size : Int) - (count * unit : Nat)).natAbs =
      ((size : Int) - (roundQuotient size unit * unit : Nat)).natAbs) :
    roundQuotient size unit % 2 = 0 := by
  have bounds := roundQuotient_bounds size positive
  refine even_of_tie ?_ positive
  rcases Nat.lt_or_gt_of_ne different with below | above
  · have apart := Nat.mul_le_mul_right unit below
    rw [Nat.succ_mul] at apart
    omega
  · have apart := Nat.mul_le_mul_right unit above
    rw [Nat.succ_mul] at apart
    omega

end Quotients

/-! ## Whole numbers with 53 significant digits -/

section Sizes

variable {size other left right count : Nat}

/-- The distance between two neighbours among the numbers of 53 binary digits around `size`. -/
def spacing (size : Nat) : Nat := 2 ^ (size.log2 - 52)

/-- The number of 53 significant binary digits that is nearest to `size`. -/
def nearestSize (size : Nat) : Nat := roundQuotient size (spacing size) * spacing size

theorem spacing_pos (size : Nat) : 0 < spacing size := Nat.two_pow_pos _

theorem le_nearestSize (least : count * spacing size ≤ size) :
    count * spacing size ≤ nearestSize size :=
  Nat.mul_le_mul_right _ (le_roundQuotient (spacing_pos size) least)

theorem nearestSize_le (most : size ≤ count * spacing size) :
    nearestSize size ≤ count * spacing size :=
  Nat.mul_le_mul_right _ (roundQuotient_le (spacing_pos size) most)

/-- The powers of two around a number are among the numbers it can be rounded to. -/
theorem exists_mul_spacing {power : Nat} (least : size.log2 ≤ power) :
    ∃ count, 2 ^ power = count * spacing size :=
  ⟨2 ^ (power - (size.log2 - 52)), by rw [spacing, ← Nat.pow_add]; congr 1; omega⟩

theorem log2_le_nearestSize (nonzero : size ≠ 0) : 2 ^ size.log2 ≤ nearestSize size := by
  rcases exists_mul_spacing (Nat.le_refl size.log2) with ⟨count, same⟩
  rw [same]
  exact le_nearestSize (same ▸ Nat.log2_self_le nonzero)

theorem nearestSize_le_log2 (size : Nat) : nearestSize size ≤ 2 ^ (size.log2 + 1) := by
  rcases exists_mul_spacing (Nat.le_succ size.log2) with ⟨count, same⟩
  rw [same]
  exact nearestSize_le (same ▸ Nat.le_of_lt Nat.lt_log2_self)

theorem nearestSize_zero : nearestSize 0 = 0 := by decide

theorem nearestSize_mono (least : left ≤ right) : nearestSize left ≤ nearestSize right := by
  rcases Nat.eq_zero_or_pos left with rfl | positive
  · rw [nearestSize_zero]
    exact Nat.zero_le _
  · have later : right ≠ 0 := by omega
    have digits : left.log2 ≤ right.log2 :=
      (Nat.le_log2 later).mpr (Nat.le_trans (Nat.log2_self_le positive.ne') least)
    rcases Nat.lt_or_eq_of_le digits with below | same
    · calc
        nearestSize left ≤ 2 ^ (left.log2 + 1) := nearestSize_le_log2 left
        _ ≤ 2 ^ right.log2 := Nat.pow_le_pow_right (by decide) below
        _ ≤ nearestSize right := log2_le_nearestSize later
    · have equal : spacing left = spacing right := by rw [spacing, spacing, same]
      rw [nearestSize, nearestSize, equal]
      exact Nat.mul_le_mul_right _ (roundQuotient_mono (spacing_pos right) least)

/-- A number of 53 significant digits that is no smaller in magnitude is a multiple of the
spacing. -/
theorem spacing_dvd {significand exponent : Nat} (short : significand < 2 ^ 53)
    (least : 2 ^ size.log2 ≤ significand * 2 ^ exponent) :
    spacing size ∣ significand * 2 ^ exponent := by
  have below : 2 ^ size.log2 < 2 ^ (53 + exponent) := by
    rw [Nat.pow_add]
    exact Nat.lt_of_le_of_lt least (Nat.mul_lt_mul_of_pos_right short (Nat.two_pow_pos _))
  have few : size.log2 < 53 + exponent := (Nat.pow_lt_pow_iff_right (by decide)).mp below
  exact Nat.dvd_mul_left_of_dvd (Nat.pow_dvd_pow 2 (by omega)) _

/-- No number of 53 significant digits is nearer to `size`. -/
theorem nearestSize_closest {significand exponent : Nat} (short : significand < 2 ^ 53) :
    ((size : Int) - nearestSize size).natAbs ≤
      ((size : Int) - (significand * 2 ^ exponent : Nat)).natAbs := by
  rcases Nat.eq_zero_or_pos size with rfl | positive
  · simp [nearestSize_zero]
  rcases Nat.lt_or_ge (significand * 2 ^ exponent) (2 ^ size.log2) with below | least
  · -- the power of two between the two numbers is nearer
    have power := Nat.log2_self_le positive.ne'
    rcases exists_mul_spacing (Nat.le_refl size.log2) with ⟨count, same⟩
    have closest := roundQuotient_closest size count (spacing_pos size)
    rw [← same] at closest
    rw [nearestSize]
    omega
  · rcases spacing_dvd short least with ⟨count, same⟩
    rw [same, Nat.mul_comm]
    exact roundQuotient_closest size count (spacing_pos size)

theorem even_of_near {significand exponent : Nat} (short : significand < 2 ^ 53)
    (different : significand * 2 ^ exponent ≠ nearestSize size)
    (tie : ((size : Int) - (significand * 2 ^ exponent : Nat)).natAbs =
      ((size : Int) - nearestSize size).natAbs) :
    roundQuotient size (spacing size) % 2 = 0 := by
  rcases Nat.eq_zero_or_pos size with rfl | positive
  · decide
  rcases Nat.lt_or_ge (significand * 2 ^ exponent) (2 ^ size.log2) with below | least
  · have power := Nat.log2_self_le positive.ne'
    rcases exists_mul_spacing (Nat.le_refl size.log2) with ⟨count, same⟩
    have closest := roundQuotient_closest size count (spacing_pos size)
    rw [← same] at closest
    rw [nearestSize] at tie
    omega
  · rcases spacing_dvd short least with ⟨count, same⟩
    rw [same, Nat.mul_comm] at tie different
    exact even_of_equally_near (spacing_pos size)
      (fun equal => different (by rw [nearestSize, equal])) tie

/-- At most 54 digits are left, and then it is a power of two. -/
theorem roundQuotient_spacing_le (size : Nat) :
    roundQuotient size (spacing size) ≤ 2 ^ 53 := by
  apply roundQuotient_le (spacing_pos size)
  rw [spacing, ← Nat.pow_add]
  calc
    size ≤ 2 ^ (size.log2 + 1) := Nat.le_of_lt Nat.lt_log2_self
    _ ≤ 2 ^ (53 + (size.log2 - 52)) := Nat.pow_le_pow_right (by decide) (by omega)

/-- Fewer than 53 significant digits are enough for the nearest number. -/
theorem exists_nearestSize (size : Nat) :
    ∃ significand exponent, significand < 2 ^ 53 ∧
      nearestSize size = significand * 2 ^ exponent ∧
      (roundQuotient size (spacing size) % 2 = 0 → significand % 2 = 0) := by
  rcases Nat.lt_or_eq_of_le (roundQuotient_spacing_le size) with below | carried
  · exact ⟨_, _, below, rfl, id⟩
  · refine ⟨2 ^ 52, size.log2 - 52 + 1, by decide, ?_, fun _ => by decide⟩
    rw [nearestSize, carried, spacing]
    ring

theorem nearestSize_of_exact {significand exponent : Nat} (short : significand < 2 ^ 53)
    (same : size = significand * 2 ^ exponent) : nearestSize size = size := by
  have closest := @nearestSize_closest size significand exponent short
  rw [← same] at closest
  omega

theorem nearestSize_of_small (small : size.log2 ≤ 52) : nearestSize size = size := by
  have spaced : spacing size = 1 := by rw [spacing, Nat.sub_eq_zero_of_le small, Nat.pow_zero]
  have whole := roundQuotient_mul size (Nat.one_pos)
  rw [Nat.mul_one] at whole
  rw [nearestSize, spaced, whole, Nat.mul_one]

end Sizes

/-! ## Integers -/

/-- Whether an integer has at most 53 significant binary digits, so that it is a binary fraction
of 64 bits. -/
def IsExact (value : Int) : Prop :=
  ∃ (significand : Int) (exponent : Nat),
    significand.natAbs < 2 ^ 53 ∧ value = significand * 2 ^ exponent

/-- How an integer is rounded: to the nearest one with 53 significant digits, and to the one whose
last significant digit is zero if two are equally near. -/
structure IsNearest (value rounded : Int) : Prop where
  exact : IsExact rounded
  closest : ∀ other, IsExact other → (value - rounded).natAbs ≤ (value - other).natAbs
  even : ∀ other, IsExact other → other ≠ rounded →
    (value - other).natAbs = (value - rounded).natAbs →
    ∃ (significand : Int) (exponent : Nat), significand.natAbs < 2 ^ 53 ∧ significand % 2 = 0 ∧
      rounded = significand * 2 ^ exponent

/-- The integer of 53 significant digits that is nearest to `value`. -/
def nearest (value : Int) : Int := value.sign * nearestSize value.natAbs

theorem nearest_natCast (size : Nat) : nearest size = nearestSize size := by
  rcases Nat.eq_zero_or_pos size with rfl | positive
  · decide
  · rw [nearest, Int.natAbs_natCast, Int.sign_eq_one_of_pos (by omega), Int.one_mul]

theorem nearest_neg (value : Int) : nearest (-value) = -nearest value := by
  rw [nearest, nearest, Int.sign_neg, Int.natAbs_neg, Int.neg_mul]

/-- An integer is a size or the negative of one. -/
theorem exists_size (value : Int) :
    ∃ size : Nat, (value = size ∧ nearest value = nearestSize size) ∨
      (value = -size ∧ nearest value = -nearestSize size) := by
  refine ⟨value.natAbs, ?_⟩
  rcases Int.natAbs_eq value with same | same
  · refine .inl ⟨same, ?_⟩
    rw [same, nearest_natCast, Int.natAbs_natCast]
  · refine .inr ⟨same, ?_⟩
    rw [same, nearest_neg, nearest_natCast, Int.natAbs_neg, Int.natAbs_natCast]

theorem natAbs_nearest (value : Int) : (nearest value).natAbs = nearestSize value.natAbs := by
  rcases exists_size value with ⟨size, ⟨rfl, same⟩ | ⟨rfl, same⟩⟩ <;> rw [same] <;> simp

theorem natAbs_sub_nearest (value : Int) :
    (value - nearest value).natAbs =
      ((value.natAbs : Int) - nearestSize value.natAbs).natAbs := by
  rcases exists_size value with ⟨size, ⟨rfl, same⟩ | ⟨rfl, same⟩⟩ <;> rw [same]
  · rw [Int.natAbs_natCast]
  · rw [Int.natAbs_neg, Int.natAbs_natCast]
    omega

/-- The sign of an integer can go to its significand. -/
theorem exists_scaled {value : Int} {significand exponent : Nat}
    (same : value.natAbs = significand * 2 ^ exponent) :
    ∃ signed : Int, signed.natAbs = significand ∧ value = signed * 2 ^ exponent := by
  rcases Int.natAbs_eq value with positive | negative
  · exact ⟨significand, Int.natAbs_natCast _, by rw [positive, same]; push_cast; rfl⟩
  · exact ⟨-significand, by simp, by rw [negative, same]; push_cast; ring⟩

theorem isExact_iff {value : Int} : IsExact value ↔
    ∃ significand exponent, significand < 2 ^ 53 ∧ value.natAbs = significand * 2 ^ exponent := by
  constructor
  · rintro ⟨significand, exponent, short, same⟩
    exact ⟨significand.natAbs, exponent, short, by rw [same, Int.natAbs_mul, Int.natAbs_pow]; rfl⟩
  · rintro ⟨significand, exponent, short, same⟩
    rcases exists_scaled same with ⟨signed, size, whole⟩
    exact ⟨signed, exponent, size ▸ short, whole⟩

theorem isNearest_nearest (value : Int) : IsNearest value (nearest value) := by
  rcases exists_nearestSize value.natAbs with ⟨significand, exponent, short, size, parity⟩
  rw [← natAbs_nearest] at size
  refine ⟨isExact_iff.mpr ⟨significand, exponent, short, size⟩, ?_, ?_⟩
  · intro other exact
    rcases isExact_iff.mp exact with ⟨otherSignificand, otherExponent, otherShort, same⟩
    have closest := @nearestSize_closest value.natAbs _ otherExponent otherShort
    rw [← same] at closest
    rw [natAbs_sub_nearest]
    omega
  · intro other exact different tie
    rcases isExact_iff.mp exact with ⟨otherSignificand, otherExponent, otherShort, same⟩
    have closest := @nearestSize_closest value.natAbs _ otherExponent otherShort
    have sizes := natAbs_nearest value
    rw [← same] at closest
    rw [natAbs_sub_nearest] at tie
    have even : significand % 2 = 0 := by
      by_cases equal : other.natAbs = nearestSize value.natAbs
      · -- the two differ in sign, and nothing but zero is as near to both
        have zero : (nearest value).natAbs = 0 := by
          by_contra nonzero
          have positive : value.natAbs ≠ 0 := fun none =>
            nonzero (by rw [sizes, none, nearestSize_zero])
          rcases exists_size value with ⟨magnitude, ⟨rfl, rounded⟩ | ⟨rfl, rounded⟩⟩
          · rw [Int.natAbs_natCast] at *
            omega
          · rw [Int.natAbs_neg, Int.natAbs_natCast] at *
            omega
        rcases Nat.mul_eq_zero.mp (size.symm.trans zero) with none | none
        · rw [none]
        · exact absurd none (Nat.two_pow_pos _).ne'
      · exact parity (even_of_near otherShort (same ▸ equal) (by rw [← same]; omega))
    rcases exists_scaled size with ⟨signed, signedSize, whole⟩
    exact ⟨signed, exponent, signedSize ▸ short, by omega, whole⟩

theorem nearest_mono {left right : Int} (least : left ≤ right) : nearest left ≤ nearest right := by
  rcases exists_size left with ⟨small, ⟨rfl, first⟩ | ⟨rfl, first⟩⟩ <;>
    rcases exists_size right with ⟨large, ⟨rfl, second⟩ | ⟨rfl, second⟩⟩ <;> rw [first, second]
  · have := @nearestSize_mono small large (by omega)
    omega
  · have zero : small = 0 ∧ large = 0 := by omega
    simp [zero, nearestSize_zero]
  · omega
  · have := @nearestSize_mono large small (by omega)
    omega

/-- An integer is rounded to itself exactly if it has at most 53 significant digits. -/
theorem nearest_eq_self_iff (value : Int) : nearest value = value ↔ IsExact value := by
  constructor
  · intro same
    exact same ▸ (isNearest_nearest value).exact
  · intro exact
    rcases isExact_iff.mp exact with ⟨significand, exponent, short, same⟩
    rw [nearest, nearestSize_of_exact short same, Int.sign_mul_natAbs]

/-! ## The fraction of an integer -/

theorem binaryMagnitude_one {size : Nat} (nonzero : size ≠ 0) :
    binaryMagnitude size 1 = size.log2 := by
  have reached : 1 * powerOfTwo size.log2 ≤ size := by
    rw [Nat.one_mul]
    exact Nat.log2_self_le nonzero
  have one : (Nat.log2 1 : Int) = 0 := by decide
  rw [binaryMagnitude, one, Int.sub_zero]
  exact if_pos (decide_eq_true reached)

theorem scaledQuotient_ofNat (size power : Nat) :
    scaledQuotient size 1 (power : Int) = roundQuotient size (2 ^ power) := by
  change roundQuotient size (1 * powerOfTwo power) = _
  rw [Nat.one_mul]
  rfl

theorem scaledQuotient_negative (size power : Nat) :
    scaledQuotient size 1 (-(power + 1 : Nat)) = size * 2 ^ (power + 1) := by
  change roundQuotient (size * powerOfTwo (power + 1)) 1 = _
  have whole := roundQuotient_mul (size * 2 ^ (power + 1)) Nat.one_pos
  rwa [Nat.mul_one] at whole

theorem signed_eq {value : Int} (nonzero : value ≠ 0) (size : Nat) :
    (if value < 0 then -(size : Int) else size) = value.sign * size := by
  rcases Int.lt_or_gt_of_ne nonzero with negative | positive
  · rw [if_pos negative, Int.sign_eq_neg_one_of_neg negative, Int.neg_one_mul]
  · rw [if_neg (by omega), Int.sign_eq_one_of_pos positive, Int.one_mul]

theorem cast_powerOfTwo (power : Nat) : ((powerOfTwo power : Nat) : Int) = 2 ^ power := by
  rw [powerOfTwo, Nat.pow_eq]
  push_cast
  rfl

theorem toInt?_ofNat (significand : Int) (power : Nat) :
    (finite significand (power : Int)).toInt? = some (significand * 2 ^ power) := by
  rw [← cast_powerOfTwo]
  rfl

theorem toInt?_negative (whole : Int) (power : Nat) :
    (finite (whole * 2 ^ (power + 1)) (-(power + 1 : Nat))).toInt? = some whole := by
  have nonzero : (2 : Int) ^ (power + 1) ≠ 0 := Int.pow_ne_zero (by decide)
  change (if whole * 2 ^ (power + 1) % (powerOfTwo (power + 1) : Int) = 0 then
    some (whole * 2 ^ (power + 1) / (powerOfTwo (power + 1) : Int)) else none) = some whole
  rw [cast_powerOfTwo, Int.mul_emod_left, if_pos rfl, Int.mul_ediv_cancel _ nonzero]

section Significand

variable {value exponent : Int} (nonzero : value ≠ 0)
  (digits : (value.natAbs.log2 : Int) - 52 = exponent) (least : leastExponent ≤ exponent)
  (most : exponent < greatestExponent)

include nonzero digits least most

theorem ofInt_of_short (short : scaledQuotient value.natAbs 1 exponent ≠ powerOfTwo 53) :
    ofInt value = finite (value.sign * scaledQuotient value.natAbs 1 exponent) exponent := by
  have size : value.natAbs ≠ 0 := by omega
  rw [ofInt, ofRatio]
  dsimp only
  rw [if_neg Nat.one_ne_zero, if_neg size, binaryMagnitude_one size, digits, max_eq_right least,
    if_neg short]
  dsimp only
  rw [if_neg (by omega), signed_eq nonzero]

theorem ofInt_of_carried (carried : scaledQuotient value.natAbs 1 exponent = powerOfTwo 53) :
    ofInt value = finite (value.sign * 2 ^ 52) (exponent + 1) := by
  have size : value.natAbs ≠ 0 := by omega
  rw [ofInt, ofRatio]
  dsimp only
  rw [if_neg Nat.one_ne_zero, if_neg size, binaryMagnitude_one size, digits, max_eq_right least,
    if_pos carried]
  dsimp only
  rw [if_neg (by omega), signed_eq nonzero]
  rfl

end Significand

/-- The fraction of an integer that is written with 53 digits and zeros after them. -/
theorem ofInt_scaled {significand : Int} {power : Nat} (least : 2 ^ 52 ≤ significand.natAbs)
    (most : significand.natAbs < 2 ^ 53) (fits : power ≤ 64) :
    ofInt (significand * 2 ^ power) = finite significand power := by
  have size : (significand * 2 ^ power).natAbs = significand.natAbs * 2 ^ power := by
    rw [Int.natAbs_mul, Int.natAbs_pow]
    rfl
  have positive : 0 < 2 ^ power := Nat.two_pow_pos power
  have large : 2 ^ 52 * 2 ^ power ≤ significand.natAbs * 2 ^ power :=
    Nat.mul_le_mul_right _ least
  have digits : (significand * 2 ^ power).natAbs.log2 = 52 + power := by
    rw [size, Nat.log2_eq_iff (by omega), Nat.pow_add, Nat.add_right_comm, Nat.pow_add]
    exact ⟨large, Nat.mul_lt_mul_of_pos_right most positive⟩
  have quotient : scaledQuotient (significand * 2 ^ power).natAbs 1 power = significand.natAbs := by
    rw [scaledQuotient_ofNat, size, roundQuotient_mul _ positive]
  have nonzero : significand * 2 ^ power ≠ 0 := by
    rw [← Int.natAbs_ne_zero, size]
    omega
  have sign : (significand * 2 ^ power).sign = significand.sign := by
    rw [Int.sign_mul, Int.sign_eq_one_of_pos (Int.pow_pos (by decide)), Int.mul_one]
  have exponent : ((significand * 2 ^ power).natAbs.log2 : Int) - 52 = power := by omega
  rw [ofInt_of_short nonzero exponent (by rw [leastExponent]; omega)
    (by rw [greatestExponent]; omega) (by rw [quotient]; exact most.ne), quotient, sign,
    Int.sign_mul_natAbs]

section Words

variable {value : Int} (nonzero : value ≠ 0) (fits : value.natAbs.log2 ≤ 64)

include nonzero fits

/-- A small integer is scaled up to 53 digits, a large one down, and a digit more is carried. -/
theorem ofInt_cases :
    (∃ power, value.natAbs.log2 + (power + 1) = 52 ∧
      ofInt value = finite (value * 2 ^ (power + 1)) (-(power + 1 : Nat))) ∨
    ∃ power, value.natAbs.log2 = power + 52 ∧ spacing value.natAbs = 2 ^ power ∧
      ((roundQuotient value.natAbs (2 ^ power) ≠ 2 ^ 53 ∧
        ofInt value = finite (value.sign * roundQuotient value.natAbs (2 ^ power)) power) ∨
      (roundQuotient value.natAbs (2 ^ power) = 2 ^ 53 ∧
        ofInt value = finite (value.sign * 2 ^ 52) (power + 1 : Nat))) := by
  rcases Nat.lt_or_ge value.natAbs.log2 52 with small | large
  · left
    obtain ⟨power, digits⟩ : ∃ power, value.natAbs.log2 + (power + 1) = 52 :=
      ⟨51 - value.natAbs.log2, by omega⟩
    have quotient := scaledQuotient_negative value.natAbs power
    have short : scaledQuotient value.natAbs 1 (-(power + 1 : Nat)) ≠ powerOfTwo 53 := by
      have below : value.natAbs * 2 ^ (power + 1) < 2 ^ 53 := by
        calc
          value.natAbs * 2 ^ (power + 1) < 2 ^ (value.natAbs.log2 + 1) * 2 ^ (power + 1) :=
            Nat.mul_lt_mul_of_pos_right Nat.lt_log2_self (Nat.two_pow_pos _)
          _ = 2 ^ 53 := by rw [← Nat.pow_add]; congr 1; omega
      exact quotient ▸ below.ne
    refine ⟨power, digits, ?_⟩
    rw [ofInt_of_short nonzero (by omega) (by rw [leastExponent]; omega)
      (by rw [greatestExponent]; omega) short, quotient]
    push_cast
    rw [← mul_assoc, Int.sign_mul_abs]
  · right
    obtain ⟨power, digits⟩ := Nat.exists_eq_add_of_le' large
    have quotient := scaledQuotient_ofNat value.natAbs power
    refine ⟨power, digits, by rw [spacing, digits, Nat.add_sub_cancel], ?_⟩
    have least : leastExponent ≤ (power : Int) := by rw [leastExponent]; omega
    have most : (power : Int) < greatestExponent := by rw [greatestExponent]; omega
    by_cases carried : roundQuotient value.natAbs (2 ^ power) = 2 ^ 53
    · right
      exact ⟨carried, ofInt_of_carried nonzero (by omega) least most (quotient.trans carried)⟩
    · left
      have short : scaledQuotient value.natAbs 1 power ≠ powerOfTwo 53 := quotient ▸ carried
      exact ⟨carried, quotient ▸ ofInt_of_short nonzero (by omega) least most short⟩

end Words

theorem toInt?_ofInt {value : Int} (fits : value.natAbs.log2 ≤ 64) :
    (ofInt value).toInt? = some (nearest value) := by
  by_cases zero : value = 0
  · have whole := toInt?_negative 0 1073
    rw [Int.zero_mul] at whole
    rw [zero]
    exact whole
  rcases ofInt_cases zero fits with ⟨power, digits, same⟩ | ⟨power, digits, spaced, large⟩
  · rw [same, toInt?_negative, nearest, nearestSize_of_small (by omega), Int.sign_mul_natAbs]
  · rw [nearest, nearestSize, spaced]
    rcases large with ⟨short, same⟩ | ⟨carried, same⟩ <;> rw [same, toInt?_ofNat]
    · push_cast
      rw [mul_assoc]
    · rw [carried, pow_succ]
      push_cast
      congr 1
      ring

/-- The nearest integer has the same fraction. -/
theorem ofInt_nearest {value : Int} (fits : value.natAbs.log2 < 64) :
    ofInt (nearest value) = ofInt value := by
  by_cases zero : value = 0
  · rw [zero]
    rfl
  have unsigned (size : Nat) : (value.sign * size).natAbs = size := by
    rw [Int.natAbs_mul, Int.natAbs_sign_of_ne_zero zero, Int.natAbs_natCast, Nat.one_mul]
  rcases ofInt_cases zero fits.le with ⟨power, digits, _⟩ | ⟨power, digits, spaced, large⟩
  · rw [nearest, nearestSize_of_small (by omega), Int.sign_mul_natAbs]
  · have bound := roundQuotient_spacing_le value.natAbs
    have least : 2 ^ 52 ≤ roundQuotient value.natAbs (spacing value.natAbs) := by
      apply le_roundQuotient (spacing_pos _)
      rw [spaced, ← Nat.pow_add, Nat.add_comm, ← digits]
      exact Nat.log2_self_le (Int.natAbs_ne_zero.mpr zero)
    rw [nearest, nearestSize]
    rw [spaced] at bound least ⊢
    rcases large with ⟨short, same⟩ | ⟨carried, same⟩ <;> rw [same]
    · rw [← ofInt_scaled (by rwa [unsigned]) (by rw [unsigned]; omega) (by omega)]
      push_cast
      rw [mul_assoc]
    · have size : (value.sign * 2 ^ 52).natAbs = 2 ^ 52 := unsigned (2 ^ 52)
      rw [carried, ← ofInt_scaled size.ge (by rw [size]; decide) (by omega), pow_succ]
      push_cast
      congr 1
      ring

/-! ## Order -/

/-- A finite number that is an integer, over a common denominator. -/
theorem mul_of_toInt? {significand exponent whole : Int}
    (same : (finite significand exponent).toInt? = some whole) :
    significand * 2 ^ exponent.toNat = whole * 2 ^ (-exponent).toNat := by
  cases exponent with
  | ofNat power =>
      rw [Int.ofNat_eq_natCast, toInt?_ofNat, Option.some.injEq] at same
      rw [← same, Int.ofNat_eq_natCast]
      simp
  | negSucc power =>
      change (if significand % (powerOfTwo (power + 1) : Int) = 0 then
        some (significand / (powerOfTwo (power + 1) : Int)) else none) = some whole at same
      rw [cast_powerOfTwo] at same
      split at same
      · next divides =>
          rw [Option.some.injEq] at same
          change significand * 2 ^ 0 = whole * 2 ^ (power + 1)
          rw [← same, Int.ediv_mul_cancel (Int.dvd_of_emod_eq_zero divides), pow_zero, mul_one]
      · cases same

/-- Equal multiples of two pairs of integers are in the same order. -/
theorem compare_of_mul {left right first second scale factor : Int} (positive : 0 < scale)
    (alsoPositive : 0 < factor) (leftIs : left * scale = first * factor)
    (rightIs : right * scale = second * factor) : compare left right = compare first second := by
  rcases lt_trichotomy first second with below | same | above
  · rw [compare_lt_iff_lt.mpr below, compare_lt_iff_lt]
    exact Int.lt_of_mul_lt_mul_right
      (leftIs ▸ rightIs ▸ Int.mul_lt_mul_of_pos_right below alsoPositive) positive.le
  · rw [compare_eq_iff_eq.mpr same, compare_eq_iff_eq]
    exact Int.eq_of_mul_eq_mul_right positive.ne' (by rw [leftIs, rightIs, same])
  · rw [compare_gt_iff_gt.mpr above, compare_gt_iff_gt]
    exact Int.lt_of_mul_lt_mul_right
      (leftIs ▸ rightIs ▸ Int.mul_lt_mul_of_pos_right above alsoPositive) positive.le

theorem aligned_mul {significand exponent whole common : Int} (least : common ≤ exponent)
    (same : (finite significand exponent).toInt? = some whole) :
    significand * powerOfTwo (exponent - common).toNat * 2 ^ common.toNat =
      whole * 2 ^ (-common).toNat := by
  have scaled := mul_of_toInt? same
  have nonzero : (2 : Int) ^ (-exponent).toNat ≠ 0 := Int.pow_ne_zero (by decide)
  have exponents : (exponent - common).toNat + common.toNat + (-exponent).toNat =
      exponent.toNat + (-common).toNat := by omega
  apply Int.eq_of_mul_eq_mul_right nonzero
  calc
    significand * powerOfTwo (exponent - common).toNat * 2 ^ common.toNat * 2 ^ (-exponent).toNat =
        significand * 2 ^ (exponent.toNat + (-common).toNat) := by
      rw [cast_powerOfTwo, mul_assoc, mul_assoc, ← pow_add, ← pow_add, ← Nat.add_assoc, exponents]
    _ = whole * 2 ^ (-common).toNat * 2 ^ (-exponent).toNat := by
      rw [pow_add, ← mul_assoc, scaled]
      ring

/-- Finite numbers that are integers are in the order of these. -/
theorem compare?_of_toInt? {left right : Binary64} {first second : Int}
    (leftIs : left.toInt? = some first) (rightIs : right.toInt? = some second) :
    compare? left right = some (compare first second) := by
  cases left with
  | finite leftSignificand leftExponent =>
      cases right with
      | finite rightSignificand rightExponent =>
          rw [compare?]
          exact congrArg some (compare_of_mul (Int.pow_pos (by decide)) (Int.pow_pos (by decide))
            (aligned_mul (min_le_left _ _) leftIs) (aligned_mul (min_le_right _ _) rightIs))
      | infinite | notNumber => simp [toInt?] at rightIs
  | infinite | notNumber => simp [toInt?] at leftIs

theorem isFinite_ofInt {value : Int} (fits : value.natAbs.log2 ≤ 64) :
    (ofInt value).isFinite = true := by
  have whole := toInt?_ofInt fits
  cases made : ofInt value with
  | finite => rfl
  | infinite | notNumber => simp [made, toInt?] at whole

theorem compare?_ofInt {left right : Int} (leftFits : left.natAbs.log2 ≤ 64)
    (rightFits : right.natAbs.log2 ≤ 64) :
    compare? (ofInt left) (ofInt right) = some (compare (nearest left) (nearest right)) :=
  compare?_of_toInt? (toInt?_ofInt leftFits) (toInt?_ofInt rightFits)

/-- Integers with the same nearest one have the same fraction. -/
theorem ofInt_eq_of_nearest {left right : Int} (leftFits : left.natAbs.log2 < 64)
    (rightFits : right.natAbs.log2 < 64) (same : nearest left = nearest right) :
    ofInt left = ofInt right := by
  rw [← ofInt_nearest leftFits, same, ofInt_nearest rightFits]

theorem least_ofInt {left right : Int} (leftFits : left.natAbs.log2 < 64)
    (rightFits : right.natAbs.log2 < 64) :
    least (ofInt left) (ofInt right) = ofInt (min left right) := by
  rw [least, compare?_ofInt leftFits.le rightFits.le]
  rcases Int.le_total left right with below | above
  · rw [min_eq_left below]
    rcases lt_or_eq_of_le (nearest_mono below) with less | same
    · rw [compare_lt_iff_lt.mpr less]
    · rw [compare_eq_iff_eq.mpr same]
  · rw [min_eq_right above]
    rcases lt_or_eq_of_le (nearest_mono above) with less | same
    · rw [compare_gt_iff_gt.mpr less]
    · rw [compare_eq_iff_eq.mpr same.symm]
      exact ofInt_eq_of_nearest leftFits rightFits same.symm

theorem greatest_ofInt {left right : Int} (leftFits : left.natAbs.log2 < 64)
    (rightFits : right.natAbs.log2 < 64) :
    greatest (ofInt left) (ofInt right) = ofInt (max left right) := by
  rw [greatest, compare?_ofInt leftFits.le rightFits.le]
  rcases Int.le_total left right with below | above
  · rw [max_eq_right below]
    rcases lt_or_eq_of_le (nearest_mono below) with less | same
    · rw [compare_lt_iff_lt.mpr less]
    · rw [compare_eq_iff_eq.mpr same]
      exact ofInt_eq_of_nearest leftFits rightFits same
  · rw [max_eq_left above]
    rcases lt_or_eq_of_le (nearest_mono above) with less | same
    · rw [compare_gt_iff_gt.mpr less]
    · rw [compare_eq_iff_eq.mpr same.symm]

/-! ## Signs and whole parts -/

/-- The fraction of an integer is that of its size but for the sign. -/
theorem exists_signed {size : Nat} (nonzero : size ≠ 0) :
    ∃ (significand : Nat) (exponent : Int), ∀ value : Int, value.natAbs = size →
      ofInt value =
        if exponent > greatestExponent then infinite (decide (value < 0))
        else finite (if value < 0 then -(significand : Int) else significand) exponent := by
  let exponent := max leastExponent (binaryMagnitude size 1 - 52)
  let quotient := scaledQuotient size 1 exponent
  let scaled :=
    if quotient = powerOfTwo 53 then (powerOfTwo 52, exponent + 1) else (quotient, exponent)
  refine ⟨scaled.1, scaled.2, fun value same => ?_⟩
  rw [ofInt, ofRatio]
  dsimp only
  rw [same, if_neg Nat.one_ne_zero, if_neg nonzero]

theorem neg_ofInt (value : Int) : (ofInt value).neg = ofInt (-value) := by
  by_cases zero : value = 0
  · rw [zero]
    rfl
  rcases exists_signed (Int.natAbs_ne_zero.mpr zero) with ⟨significand, exponent, signed⟩
  rw [signed value rfl, signed (-value) (Int.natAbs_neg value)]
  rcases Int.lt_or_gt_of_ne zero with negative | positive
  · have opposite : ¬-value < 0 := by omega
    rw [decide_eq_true negative, decide_eq_false opposite, if_pos negative, if_neg opposite]
    split <;> simp [neg]
  · have natural : ¬value < 0 := by omega
    have opposite : -value < 0 := by omega
    rw [decide_eq_false natural, decide_eq_true opposite, if_neg natural, if_pos opposite]
    split <;> simp [neg]

theorem abs_ofInt (value : Int) : (ofInt value).abs = ofInt (value.natAbs : Int) := by
  by_cases zero : value = 0
  · rw [zero]
    rfl
  rcases exists_signed (Int.natAbs_ne_zero.mpr zero) with ⟨significand, exponent, signed⟩
  have natural : ¬(value.natAbs : Int) < 0 := by omega
  rw [signed value rfl, signed (value.natAbs : Int) (Int.natAbs_natCast _), if_neg natural,
    decide_eq_false natural]
  split
  · rfl
  · split <;> simp [abs]

theorem floor_of_toInt? {value : Binary64} {whole : Int} (same : value.toInt? = some whole) :
    value.floor = ofInt whole := by
  cases value with
  | finite significand exponent =>
      rw [floor]
      congr 1
      cases exponent with
      | ofNat power => exact Option.some.inj same
      | negSucc power =>
          change (if significand % (powerOfTwo (power + 1) : Int) = 0 then
            some (significand / (powerOfTwo (power + 1) : Int)) else none) = some whole at same
          split at same
          · rw [← Option.some.inj same]
            exact Int.fdiv_eq_ediv_of_nonneg _ (Int.natCast_nonneg _)
          · cases same
  | infinite | notNumber => simp [toInt?] at same

theorem floor_ofInt {value : Int} (fits : value.natAbs.log2 < 64) :
    (ofInt value).floor = ofInt value := by
  rw [floor_of_toInt? (toInt?_ofInt fits.le), ofInt_nearest fits]

theorem ceil_ofInt {value : Int} (fits : value.natAbs.log2 < 64) :
    (ofInt value).ceil = ofInt value := by
  rw [ceil, neg_ofInt, floor_ofInt (by rwa [Int.natAbs_neg]), neg_ofInt, Int.neg_neg]

end Binary64

/-! ## Numbers -/

namespace Number

open Binary64

theorem log2_lt_of_isHeld {value : Int} (held : (integer value).IsHeld) :
    value.natAbs.log2 < 64 := by
  cases held with
  | integer least most =>
      by_cases zero : value.natAbs = 0
      · rw [zero]
        decide
      · rw [Nat.log2_lt zero]
        rw [signedLimit] at least
        rw [wordCount] at most
        omega

theorem least_le_nearest {value : Int} (held : (integer value).IsHeld) :
    -(signedLimit : Int) ≤ nearest value := by
  cases held with
  | integer least most =>
      have exact : IsExact (-(signedLimit : Int)) := ⟨-1, 63, by decide, by decide⟩
      rw [← (nearest_eq_self_iff _).mpr exact]
      exact nearest_mono least

/-- The number that an integer becomes on its way through a fraction. -/
theorem ofBinary_ofInt {value : Int} (held : (integer value).IsHeld) :
    ofBinary (ofInt value) =
      if nearest value < wordCount then integer (nearest value)
      else binary (ofInt (nearest value)) := by
  have fits := log2_lt_of_isHeld held
  rw [ofBinary, toInt?_ofInt fits.le, ofInt_nearest fits]
  dsimp only
  rw [isIntegerRange, decide_eq_true (least_le_nearest held), Bool.true_and]
  simp only [decide_eq_true_eq]

theorem ofBinary_ofInt_eq_iff {value : Int} (held : (integer value).IsHeld) :
    ofBinary (ofInt value) = integer value ↔ IsExact value := by
  rw [ofBinary_ofInt held, ← nearest_eq_self_iff]
  cases held with
  | integer least most =>
      constructor
      · intro same
        split at same
        · exact integer.inj same
        · cases same
      · intro same
        rw [same, if_pos most]

end Number

end Groundplan
