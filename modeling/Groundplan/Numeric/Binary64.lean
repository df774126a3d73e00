import Groundplan.Numeric.Power
/-!
Binary floating point of 64 bits in exact arithmetic. A finite number is kept
as `significand * 2 ^ exponent` in normal form, and every operation computes
the exact result and rounds it once, to nearest with ties to the even
significand.
-/

namespace Groundplan

/-- A 64-bit floating point number. The sign of zero is not kept. -/
inductive Binary64 where
  | finite (significand : Int) (exponent : Int)
  | infinite (negative : Bool)
  | notNumber
deriving DecidableEq

namespace Binary64

/-- The exponent of the smallest spacing between two numbers. -/
def leastExponent : Int := -1074

/-- The exponent of the largest spacing between two numbers. -/
def greatestExponent : Int := 971

def zero : Binary64 := finite 0 leastExponent

/-- `numerator / denominator` as a natural quotient rounded to nearest, with
ties to even. -/
def roundQuotient (numerator denominator : Nat) : Nat :=
  let quotient := numerator / denominator
  let twice := 2 * (numerator % denominator)
  if twice < denominator then quotient
  else if twice > denominator then quotient + 1
  else if quotient % 2 = 0 then quotient else quotient + 1

/-- The quotient `numerator / (denominator * 2 ^ exponent)`, rounded. -/
def scaledQuotient (numerator denominator : Nat) (exponent : Int) : Nat :=
  match exponent with
  | .ofNat power => roundQuotient numerator (denominator * powerOfTwo power)
  | .negSucc power => roundQuotient (numerator * powerOfTwo (power + 1)) denominator

/-- The greatest `k` with `2 ^ k ≤ numerator / denominator`. -/
def binaryMagnitude (numerator denominator : Nat) : Int :=
  let guess : Int := (numerator.log2 : Int) - (denominator.log2 : Int)
  let reached : Bool :=
    match guess with
    | .ofNat power => decide (denominator * powerOfTwo power ≤ numerator)
    | .negSucc power => decide (denominator ≤ numerator * powerOfTwo (power + 1))
  if reached then guess else guess - 1

def ofRatio (numerator : Int) (denominator : Nat) : Binary64 :=
  let size := numerator.natAbs
  if denominator = 0 then
    if size = 0 then notNumber else infinite (decide (numerator < 0))
  else if size = 0 then zero
  else
    let exponent := max leastExponent (binaryMagnitude size denominator - 52)
    let rounded := scaledQuotient size denominator exponent
    let (rounded, exponent) :=
      if rounded = powerOfTwo 53 then (powerOfTwo 52, exponent + 1) else (rounded, exponent)
    if exponent > greatestExponent then infinite (decide (numerator < 0))
    else finite (if numerator < 0 then -(rounded : Int) else rounded) exponent

def ofInt (value : Int) : Binary64 := ofRatio value 1

/-- The number nearest to `significand * 2 ^ exponent`. -/
def ofScaled (significand exponent : Int) : Binary64 :=
  match exponent with
  | .ofNat power => ofRatio (significand * powerOfTwo power) 1
  | .negSucc power => ofRatio significand (powerOfTwo (power + 1))

/-- The number nearest to `digits * 10 ^ power`. Powers far outside the range
decide the result without computing the power. -/
def ofDecimal (digits : Int) (power : Int) : Binary64 :=
  let size : Int := digits.natAbs.log2
  if digits = 0 then zero
  else if size / 4 + power > 400 then infinite (decide (digits < 0))
  else if size / 3 + power < -400 then zero
  else
    match power with
    | .ofNat exponent => ofRatio (digits * powerOfTen exponent) 1
    | .negSucc exponent => ofRatio digits (powerOfTen (exponent + 1))

/-- The whole part of `significand * 2 ^ exponent`, rounded down. -/
def wholePart (significand exponent : Int) : Int :=
  match exponent with
  | .ofNat power => significand * powerOfTwo power
  | .negSucc power => significand.fdiv (powerOfTwo (power + 1))

/-- The integer that a number is exactly, if it is one. -/
def toInt? : Binary64 → Option Int
  | finite significand exponent =>
      match exponent with
      | .ofNat power => some (significand * powerOfTwo power)
      | .negSucc power =>
          if significand % powerOfTwo (power + 1) = 0 then
            some (significand / powerOfTwo (power + 1))
          else none
  | _ => none

def isFinite : Binary64 → Bool
  | finite _ _ => true
  | _ => false

/-- Both numbers over the smaller of their exponents. -/
def aligned (leftSignificand leftExponent rightSignificand rightExponent : Int) :
    Int × Int × Int :=
  let common := min leftExponent rightExponent
  (leftSignificand * powerOfTwo (leftExponent - common).toNat,
    rightSignificand * powerOfTwo (rightExponent - common).toNat, common)

def neg : Binary64 → Binary64
  | finite significand exponent => finite (-significand) exponent
  | infinite negative => infinite (!negative)
  | notNumber => notNumber

def abs : Binary64 → Binary64
  | finite significand exponent => finite significand.natAbs exponent
  | infinite _ => infinite false
  | notNumber => notNumber

def add : Binary64 → Binary64 → Binary64
  | finite left leftExponent, finite right rightExponent =>
      let (left, right, common) := aligned left leftExponent right rightExponent
      ofScaled (left + right) common
  | infinite left, infinite right => if left = right then infinite left else notNumber
  | infinite left, finite _ _ => infinite left
  | finite _ _, infinite right => infinite right
  | notNumber, _ => notNumber
  | _, notNumber => notNumber

def sub (left right : Binary64) : Binary64 := add left right.neg

private def isNegative : Binary64 → Bool
  | finite significand _ => decide (significand < 0)
  | infinite negative => negative
  | notNumber => false

private def isZero : Binary64 → Bool
  | finite significand _ => decide (significand = 0)
  | _ => false

def mul : Binary64 → Binary64 → Binary64
  | finite left leftExponent, finite right rightExponent =>
      ofScaled (left * right) (leftExponent + rightExponent)
  | notNumber, _ => notNumber
  | _, notNumber => notNumber
  | left, right =>
      if left.isZero || right.isZero then notNumber
      else infinite (left.isNegative != right.isNegative)

def div : Binary64 → Binary64 → Binary64
  | finite left leftExponent, finite right rightExponent =>
      let numerator := if right < 0 then -left else left
      match leftExponent - rightExponent with
      | .ofNat power => ofRatio (numerator * powerOfTwo power) right.natAbs
      | .negSucc power => ofRatio numerator (right.natAbs * powerOfTwo (power + 1))
  | finite _ _, infinite _ => zero
  | infinite left, right@(finite _ _) => infinite (left != right.isNegative)
  | _, _ => notNumber

/-- The remainder of the division that truncates, with the sign of the dividend. -/
def rem : Binary64 → Binary64 → Binary64
  | finite left leftExponent, finite right rightExponent =>
      let (left, right, common) := aligned left leftExponent right rightExponent
      if right = 0 then notNumber else ofScaled (left.tmod right) common
  | left@(finite _ _), infinite _ => left
  | _, _ => notNumber

def floor : Binary64 → Binary64
  | finite significand exponent => ofInt (wholePart significand exponent)
  | other => other

def ceil (value : Binary64) : Binary64 := value.neg.floor.neg

/-- The order of two numbers; a non-number has none. -/
def compare? : Binary64 → Binary64 → Option Ordering
  | finite left leftExponent, finite right rightExponent =>
      let (left, right, _) := aligned left leftExponent right rightExponent
      some (compare left right)
  | infinite left, infinite right =>
      some (if left = right then .eq else if left then .lt else .gt)
  | infinite left, finite _ _ => some (if left then .lt else .gt)
  | finite _ _, infinite right => some (if right then .gt else .lt)
  | _, _ => none

/-- The smaller of two numbers; a non-number gives way to the other. -/
def least (left right : Binary64) : Binary64 :=
  match compare? left right with
  | some .gt => right
  | some _ => left
  | none => if left = notNumber then right else left

/-- The greater of two numbers; a non-number gives way to the other. -/
def greatest (left right : Binary64) : Binary64 :=
  match compare? left right with
  | some .lt => right
  | some _ => left
  | none => if left = notNumber then right else left

/-- One tenth is not a dyadic number, so reading it rounds. -/
example : ofDecimal 1 (-1) = finite 7205759403792794 (-56) := by decide

example : add (ofDecimal 1 (-1)) (ofDecimal 2 (-1)) = finite 5404319552844596 (-54) := by
  decide

example : (ofDecimal 18446744073709551615 0).toInt? = some 18446744073709551616 := by decide

end Binary64

end Groundplan
