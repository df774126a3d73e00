/-!
The lines of a text. Where they start is kept in bytes, so that the line of a
byte is found by halving; the columns of a line are counted in characters.
-/

namespace Groundplan

structure Position where
  line : Nat
  column : Nat
  byte : Nat
deriving DecidableEq

def Position.start : Position := ⟨1, 1, 0⟩

/-- Where a number stands among ascending ones, or else where it would have to
be put. -/
inductive Placement where
  | found (index : Nat)
  | missing (index : Nat)
deriving DecidableEq

namespace Placement

/-- Halve the `size` numbers from `low` on until the wanted one is met. -/
def searchFrom (numbers : Array Nat) (wanted low size : Nat)
    (inside : low + size ≤ numbers.size) : Placement :=
  if nonempty : 0 < size then
    let middle := low + size / 2
    match compare wanted numbers[middle] with
    | .eq => found middle
    | .gt => searchFrom numbers wanted (middle + 1) (size - size / 2 - 1) (by omega)
    | .lt => searchFrom numbers wanted low (size / 2) (by omega)
  else missing low
termination_by size

def search (numbers : Array Nat) (wanted : Nat) : Placement :=
  searchFrom numbers wanted 0 numbers.size (by omega)

end Placement

/-- The lines of a text, by the bytes at which they start. -/
structure LineIndex where
  starts : Array Nat

namespace LineIndex

/-- The starts of lines after the line breaks of a text whose first character is
at `byte`. -/
def startsFrom (byte : Nat) : List Char → List Nat
  | [] => []
  | c :: rest =>
      if c = '\n' then (byte + 1) :: startsFrom (byte + 1) rest
      else startsFrom (byte + c.utf8Size) rest

def ofText (text : String) : LineIndex := ⟨(0 :: startsFrom 0 text.toList).toArray⟩

/-- The line that a byte is in, counted from zero: the one that starts there, or
else the one before the place where such a line would be put. -/
def line? (index : LineIndex) (byte : Nat) : Option Nat :=
  match Placement.search index.starts byte with
  | .found line => some line
  | .missing 0 => none
  | .missing (line + 1) => some line

/-- What follows on so many bytes, if these end with a character. -/
def dropBytes? : Nat → List Char → Option (List Char)
  | 0, chars => some chars
  | _ + 1, [] => none
  | size + 1, c :: rest =>
      if c.utf8Size ≤ size + 1 then dropBytes? (size + 1 - c.utf8Size) rest else none

/-- The characters in so many bytes, if these end with a character. -/
def takeBytes? : Nat → List Char → Option (List Char)
  | 0, _ => some []
  | _ + 1, [] => none
  | size + 1, c :: rest =>
      if c.utf8Size ≤ size + 1 then (takeBytes? (size + 1 - c.utf8Size) rest).map (c :: ·)
      else none

/-- The position of a byte. Its column counts characters, unless the byte is
inside of one or beyond the text. -/
def position? (index : LineIndex) (text : String) (byte : Nat) : Option Position := do
  let line ← index.line? byte
  let start ← index.starts[line]?
  let before := (dropBytes? start text.toList).bind (takeBytes? (byte - start))
  let column := (before.map List.length).getD (byte - start)
  return ⟨line + 1, column + 1, byte⟩

example : (ofText "é\n\nab").position? "é\n\nab" 5 = some ⟨3, 2, 5⟩ := by decide +kernel

end LineIndex

end Groundplan
