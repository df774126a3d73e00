/-!
Blocks of message digests: a message is followed by a one bit, filled with
zeros, and closed by its length in bits.
-/

namespace Groundplan.Digest

/-- The bytes of `value`, the lowest one first. -/
def littleEndian : Nat → Nat → List UInt8
  | 0, _ => []
  | count + 1, value => .ofNat (value % 256) :: littleEndian count (value / 256)

/-- The bytes of `value`, the highest one first. -/
def bigEndian (count value : Nat) : List UInt8 := (littleEndian count value).reverse

/-- The number of zero bytes that bring `length` bytes, a mark and a length
field of `field` bytes to a whole number of blocks. -/
def fillCount (block field length : Nat) : Nat :=
  (block - (length + 1 + field) % block) % block

/-- A message with its mark, its fill and its length. -/
def pad (block field : Nat) (lengthBytes : Nat → List UInt8) (message : List UInt8) :
    List UInt8 :=
  message ++ 0x80 :: List.replicate (fillCount block field message.length) 0 ++
    lengthBytes (8 * message.length)

/-- Cut a list into pieces of `size`; a shorter remainder is dropped. -/
def cut (size : Nat) : Nat → List α → List (List α)
  | 0, _ => []
  | count + 1, items => items.take size :: cut size count (items.drop size)

def pieces (size : Nat) (items : List α) : List (List α) := cut size (items.length / size) items

/-- The number that bytes give with the highest one first. -/
def ofBigEndian (bytes : List UInt8) : Nat :=
  bytes.foldl (fun total byte => 256 * total + byte.toNat) 0

/-- The number that bytes give with the lowest one first. -/
def ofLittleEndian (bytes : List UInt8) : Nat := ofBigEndian bytes.reverse

private def hexDigit (value : Nat) : Char := ("0123456789abcdef".toList[value]?).getD '0'

def hexText (bytes : List UInt8) : String :=
  String.ofList (bytes.flatMap fun byte => [hexDigit (byte.toNat / 16), hexDigit (byte.toNat % 16)])

example : fillCount 64 8 55 = 0 := by decide

example : fillCount 64 8 56 = 63 := by decide

end Groundplan.Digest
