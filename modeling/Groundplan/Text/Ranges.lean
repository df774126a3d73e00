/-!
Sets of characters, held as ranges of code points in increasing order and
written in hexadecimal: `41-5a 5f` is the set of the capital letters and the
underscore.
-/

namespace Groundplan.Text

/-- The value of one hexadecimal digit, zero for any other character. -/
def hexDigitValue (c : Char) : Nat :=
  if c.isDigit then c.toNat - '0'.toNat
  else if 'a' ≤ c && c ≤ 'f' then c.toNat - 'a'.toNat + 10
  else 0

def hexValue (text : String) : Nat :=
  text.toList.foldl (fun total digit => 16 * total + hexDigitValue digit) 0

def words (text : String) : List String :=
  ((text.splitOn "\n").flatMap fun line => line.splitOn " ").filter fun word => !word.isEmpty

/-- Ranges of code points, both ends included. -/
structure Ranges where
  ranges : List (Nat × Nat)

namespace Ranges

/-- The ends of one range; a single code point is both of its ends. -/
def range (text : String) : Nat × Nat :=
  match text.splitOn "-" with
  | [first, last] => (hexValue first, hexValue last)
  | _ => (hexValue text, hexValue text)

def read (text : String) : Ranges := ⟨(words text).map range⟩

def contains (set : Ranges) (c : Char) : Bool :=
  set.ranges.any fun ends => ends.1 ≤ c.toNat && c.toNat ≤ ends.2

example : (Ranges.mk [(0x41, 0x5a), (0x5f, 0x5f)]).contains '_' = true := by decide

end Ranges

end Groundplan.Text
