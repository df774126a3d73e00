import Groundplan.Numeric.Decimal
/-!
Configuration numbers. A number is a whole number of 64 bits, signed or
unsigned, or else a binary fraction. Every whole result within the range of the
integers is kept as an integer.
-/

namespace Groundplan

inductive Number where
  | integer (value : Int)
  | binary (value : Binary64)
deriving DecidableEq

namespace Number

/-- The integers reach from `-2 ^ 63` to `2 ^ 64 - 1`. -/
def isIntegerRange (value : Int) : Bool :=
  decide (-(signedLimit : Int) ≤ value) && decide (value < wordCount)

/-- A whole number in range becomes an integer. -/
def ofBinary (value : Binary64) : Number :=
  match value.toInt? with
  | some whole => if isIntegerRange whole then integer whole else binary value
  | none => binary value

def ofNat (value : Nat) : Number := integer value

def toBinary : Number → Binary64
  | integer value => Binary64.ofInt value
  | binary value => value

/-- The value as a signed integer of 64 bits. -/
def asSigned? : Number → Option Int
  | integer value => if value < signedLimit then some value else none
  | binary _ => none

/-- The value as an unsigned integer of 64 bits. -/
def asUnsigned? : Number → Option Nat
  | integer value => if 0 ≤ value then some value.toNat else none
  | binary _ => none

/-- The integer of 64 bits with the same remainder, read as unsigned. -/
private def wrapUnsigned (value : Int) : Number := integer (value % wordCount)

/-- The integer of 64 bits with the same remainder, read as signed. -/
private def wrapSigned (value : Int) : Number := integer (value.bmod wordCount)

/-- Apply `exact` to two integers that are both natural or both negative, and
`rounded` to the binary values of any other pair. -/
private def combine (natural negative : Int → Int → Number)
    (rounded : Binary64 → Binary64 → Binary64) (left right : Number) : Number :=
  match left, right with
  | integer first, integer second =>
      if 0 ≤ first && 0 ≤ second then natural first second
      else if first < 0 && second < 0 then negative first second
      else ofBinary (rounded left.toBinary right.toBinary)
  | _, _ => ofBinary (rounded left.toBinary right.toBinary)

def add : Number → Number → Number :=
  combine (fun first second => wrapUnsigned (first + second))
    (fun first second => wrapSigned (first + second)) Binary64.add

def sub : Number → Number → Number :=
  combine
    (fun first second =>
      if second ≤ first then integer (first - second) else wrapSigned (first - second))
    (fun first second => integer (first - second)) Binary64.sub

def mul : Number → Number → Number :=
  combine (fun first second => wrapUnsigned (first * second))
    (fun first second => wrapSigned (first * second)) Binary64.mul

/-- Division always goes through binary fractions. -/
def div (left right : Number) : Number :=
  ofBinary (left.toBinary.div right.toBinary)

/-- The remainder has the sign of the dividend. -/
def rem : Number → Number → Number :=
  combine (fun first second => integer (first.tmod second))
    (fun first second => integer (first.tmod second)) Binary64.rem

def neg : Number → Number
  | integer value => wrapSigned (-value)
  | binary value => ofBinary value.neg

/-- Two integers compare exactly, any other pair as binary fractions. -/
def compare? (left right : Number) : Option Ordering :=
  match left, right with
  | integer first, integer second => some (compare first second)
  | _, _ => Binary64.compare? left.toBinary right.toBinary

def equal (left right : Number) : Bool := compare? left right == some .eq

def text : Number → String
  | integer value => toString value
  | binary value => value.text ⟨false⟩

/-- The text of a number in a JSON document. A whole number that is kept as a
binary fraction shows it by a zero after the point, and the infinities have no
text. -/
def jsonText : Number → String
  | integer value => toString value
  | binary value =>
      let size := value.text ⟨true⟩
      if !value.isFinite then "null"
      else if size.all fun c => c.isDigit || c == '-' then size ++ ".0"
      else size

/-- An integer that fits no binary fraction is not rounded by a sum of its kind. -/
example : add (integer 9007199254740992) (integer 1) = integer 9007199254740993 := by decide

example : equal (integer 18446744073709551615)
    (ofBinary (Binary64.ofDecimal 18446744073709551615 0)) = true := by decide

example : div (integer 7) (integer 2) = binary (Binary64.ofDecimal 35 (-1)) := by decide

end Number

end Groundplan
