/-!
Powers of two and of ten, and the bounds of words of 64 bits.
-/

namespace Groundplan

def powerOfTwo (exponent : Nat) : Nat := Nat.pow 2 exponent

def powerOfTen (exponent : Nat) : Nat := Nat.pow 10 exponent

/-- The number of words of 64 bits: an unsigned word is below it. -/
abbrev wordCount : Nat := 18446744073709551616

/-- Half the number of words of 64 bits: a signed word is below it, and not below
its negative. -/
abbrev signedLimit : Nat := 9223372036854775808

/-- The sum of two signed words, or the bound of the words that it goes beyond. -/
def saturatingSum (left right : Int) : Int :=
  max (-(signedLimit : Int)) (min ((signedLimit : Int) - 1) (left + right))

example : wordCount = powerOfTwo 64 := by decide

example : signedLimit = powerOfTwo 63 := by decide

end Groundplan
