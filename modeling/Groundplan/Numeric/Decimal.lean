import Groundplan.Numeric.Binary64
/-!
Decimal text of binary numbers: the fewest digits that read back as the same
number, their layout, and the reading of a decimal.
-/

namespace Groundplan

/-- The number `digits * 10 ^ power`. -/
structure Decimal where
  digits : Nat
  power : Int
deriving DecidableEq

namespace Decimal

/-! ## Shortest digits -/

/-- The order of `left * 10 ^ power` and `right * 2 ^ exponent`. -/
private def compareScaled (left : Nat) (power : Int) (right : Nat) (exponent : Int) :
    Ordering :=
  let left := left * powerOfTen power.toNat * powerOfTwo (-exponent).toNat
  let right := right * powerOfTwo exponent.toNat * powerOfTen (-power).toNat
  compare left right

/-- The greatest `k` with `10 ^ k ≤ significand * 2 ^ exponent`. -/
private def decimalMagnitude (significand : Nat) (exponent : Int) : Int :=
  let guess : Int := ((significand.log2 : Int) + exponent) * 30103 / 100000
  if compareScaled 1 (guess + 1) significand exponent != .gt then guess + 1
  else if compareScaled 1 guess significand exponent != .gt then guess
  else guess - 1

/-- The greatest multiple of `10 ^ power` that is at most `significand * 2 ^ exponent`,
counted in units of `10 ^ power`. -/
private def wholeUnits (significand : Nat) (exponent power : Int) : Nat :=
  significand * powerOfTwo exponent.toNat * powerOfTen (-power).toNat /
    (powerOfTwo (-exponent).toNat * powerOfTen power.toNat)

/-- Whether `count * 10 ^ power` rounds to the number `significand * 2 ^ exponent`.
The numbers that round to it reach half way to its neighbours, ends included
when the significand is even; below a power of two the neighbour is nearer. -/
private def readsBack (significand : Nat) (exponent : Int) (count : Nat) (power : Int) : Bool :=
  let quarters := 4 * significand
  let narrow := significand == powerOfTwo 52 && exponent > Binary64.leastExponent
  let lower := if narrow then quarters - 1 else quarters - 2
  let below := compareScaled count power lower (exponent - 2)
  let above := compareScaled count power (quarters + 2) (exponent - 2)
  let closed := significand % 2 == 0
  (below == .gt || (closed && below == .eq)) && (above == .lt || (closed && above == .eq))

/-- Of the two multiples of `10 ^ power` around the number, the one that reads
back, and the nearer one when both do. -/
private def onGrid? (significand : Nat) (exponent power : Int) : Option Decimal :=
  let count := wholeUnits significand exponent power
  let low := readsBack significand exponent count power
  let high := readsBack significand exponent (count + 1) power
  let middle := compareScaled (2 * count + 1) power (2 * significand) exponent
  if low && high then
    some ⟨if middle == .lt || (middle == .eq && count % 2 == 1) then count + 1 else count, power⟩
  else if low then some ⟨count, power⟩
  else if high then some ⟨count + 1, power⟩
  else none

/-- Move factors of ten from the digits into the power. -/
private def dropZeros : Nat → Decimal → Decimal
  | 0, decimal => decimal
  | steps + 1, decimal =>
      if decimal.digits % 10 = 0 then
        dropZeros steps ⟨decimal.digits / 10, decimal.power + 1⟩
      else decimal

/-- The decimal with the fewest digits that reads back as
`significand * 2 ^ exponent`, the nearest one if several have as few. -/
def shortest (significand : Nat) (exponent : Int) : Decimal :=
  if significand = 0 then ⟨0, 0⟩
  else
    let leading := decimalMagnitude significand exponent
    let found := (List.range 17).findSome? fun (more : Nat) =>
      onGrid? significand exponent (leading - (more : Int))
    dropZeros 20 (found.getD
      ⟨wholeUnits significand exponent (leading - 16), leading - 16⟩)

example : shortest 7205759403792794 (-56) = ⟨1, -1⟩ := by decide

example : shortest 1 (-1074) = ⟨5, -324⟩ := by decide +kernel

/-! ## Layout -/

structure Style where
  /-- A plus sign stands before a positive exponent. -/
  signedExponent : Bool

/-- Positional notation is used from `10 ^ -5` up to but not including `10 ^ 16`. -/
def isPositional (leading : Int) : Bool := decide (-5 ≤ leading) && decide (leading < 16)

/-- The text of a decimal: positional, or one digit before the point and an
exponent. -/
def text (style : Style) (decimal : Decimal) : String :=
  let digits := Nat.toDigits 10 decimal.digits
  let leading : Int := (digits.length : Int) - 1 + decimal.power
  let chars :=
    if isPositional leading then
      if decimal.power ≥ 0 then digits ++ List.replicate decimal.power.toNat '0'
      else if leading ≥ 0 then
        digits.take (leading.toNat + 1) ++ '.' :: digits.drop (leading.toNat + 1)
      else '0' :: '.' :: List.replicate (-leading - 1).toNat '0' ++ digits
    else
      let fraction := digits.drop 1
      let sign := if leading < 0 then ['-'] else if style.signedExponent then ['+'] else []
      digits.take 1 ++ (if fraction.isEmpty then [] else '.' :: fraction) ++
        'e' :: sign ++ Nat.toDigits 10 leading.natAbs
  String.ofList chars

/-! ## Reading -/

def ofDigits (digits : List Char) : Nat :=
  digits.foldl (fun total digit => 10 * total + (digit.toNat - '0'.toNat)) 0

/-- The longest run of decimal digits at the start, and what follows it. -/
def spanDigits (text : List Char) : List Char × List Char :=
  (text.takeWhile Char.isDigit, text.dropWhile Char.isDigit)

def spanSign : List Char → Bool × List Char
  | '-' :: rest => (true, rest)
  | '+' :: rest => (false, rest)
  | text => (false, text)

/-- An exponent part, `e` or `E`, sign and digits, that is the whole text; the
empty text is the exponent zero. -/
def exponent? : List Char → Option Int
  | [] => some 0
  | mark :: rest =>
      if mark = 'e' || mark = 'E' then
        let (negative, digits) := spanSign rest
        if digits.isEmpty || !digits.all Char.isDigit then none
        else
          let size : Int := ofDigits digits
          some (if negative then -size else size)
      else none

/-- The number nearest to a decimal with an optional sign, digits before or
after an optional point, and an optional exponent. The names of infinity and of
the non-number are read in either case. -/
def read? (text : List Char) : Option Binary64 :=
  let (negative, body) := spanSign text
  let name := String.ofList (body.map Char.toLower)
  if name = "inf" || name = "infinity" then some (.infinite negative)
  else if name = "nan" then some .notNumber
  else
    let (whole, rest) := spanDigits body
    let (fraction, rest) :=
      match rest with
      | '.' :: rest => spanDigits rest
      | rest => ([], rest)
    if whole.isEmpty && fraction.isEmpty then none
    else
      (exponent? rest).map fun (exponent : Int) =>
        let size : Int := ofDigits (whole ++ fraction)
        Binary64.ofDecimal (if negative then -size else size)
          (exponent - (fraction.length : Int))

end Decimal

def Binary64.text (style : Decimal.Style) : Binary64 → String
  | finite significand exponent =>
      let size := Decimal.text style (Decimal.shortest significand.natAbs exponent)
      if significand < 0 then "-" ++ size else size
  | infinite negative => if negative then "-inf" else "inf"
  | notNumber => "NaN"

example : (Binary64.ofDecimal 15 (-8)).text ⟨false⟩ = "1.5e-7" := by decide +kernel

example : (Binary64.ofDecimal 1 21).text ⟨true⟩ = "1e+21" := by decide +kernel

end Groundplan
