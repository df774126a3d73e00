import Groundplan.Digest.Blocks
import Groundplan.Numeric.Power
/-!
The secure hashes of 256 and 512 bits. Their constants are the first bits of
the fractions of roots of the first prime numbers, and are computed as such.
-/

namespace Groundplan.Digest.Sha2

/-! ## Constants -/

/-- The greatest number whose power of the given degree is at most `value`,
found bit by bit from bit `bits - 1` down. -/
def rootIn (degree value : Nat) : Nat → Nat → Nat
  | 0, found => found
  | bits + 1, found =>
      let tried := found + powerOfTwo bits
      rootIn degree value bits (if Nat.pow tried degree ≤ value then tried else found)

/-- The first 64 bits of the fraction of the root of `value`. -/
def rootFraction (degree value : Nat) : Nat :=
  rootIn degree (value * powerOfTwo (64 * degree)) 72 0 % wordCount

private def isPrime (value : Nat) : Bool :=
  2 ≤ value && (List.range value).all fun divisor => divisor < 2 || value % divisor != 0

/-- The prime numbers below 410; there are 80 of them. -/
private def primes : List Nat := (List.range 410).filter isPrime

private def rounds64 : List UInt64 :=
  (primes.take 80).map fun prime => .ofNat (rootFraction 3 prime)

private def start64 : List UInt64 := (primes.take 8).map fun prime => .ofNat (rootFraction 2 prime)

private def upperHalf (value : UInt64) : UInt32 := .ofNat (value.toNat / powerOfTwo 32)

private def rounds32 : List UInt32 := (rounds64.take 64).map upperHalf

private def start32 : List UInt32 := start64.map upperHalf

/-! ## Compression -/

/-- The operations of a hash over words of one width. -/
structure Words (ω : Type) where
  add : ω → ω → ω
  xor : ω → ω → ω
  and : ω → ω → ω
  not : ω → ω
  zero : ω
  /-- The two sums over the state, and the two over the message. -/
  sumA : ω → ω
  sumE : ω → ω
  earlySum : ω → ω
  lateSum : ω → ω

variable {ω : Type} (words : Words ω)

/-- Extend the words of a block, which are given from the last one to the
first, by `count` more. -/
private def extend : Nat → List ω → List ω
  | 0, schedule => schedule
  | count + 1, schedule =>
      let word (back : Nat) : ω := (schedule[back - 1]?).getD words.zero
      extend count
        (words.add (words.add (words.lateSum (word 2)) (word 7))
          (words.add (words.earlySum (word 15)) (word 16)) :: schedule)

private def round (state : List ω) (entry : ω × ω) : List ω :=
  match state with
  | [a, b, c, d, e, f, g, h] =>
      let choice := words.xor (words.and e f) (words.and (words.not e) g)
      let majority := words.xor (words.and a b) (words.xor (words.and a c) (words.and b c))
      let first := words.add (words.add h (words.sumE e))
        (words.add choice (words.add entry.1 entry.2))
      let second := words.add (words.sumA a) majority
      [words.add first second, a, b, c, words.add d first, e, f, g]
  | other => other

private def absorb (constants : List ω) (state block : List ω) : List ω :=
  let schedule := (extend words (constants.length - 16) block.reverse).reverse
  List.zipWith words.add state ((constants.zip schedule).foldl (round words) state)

/-! ## Words of 32 and of 64 bits -/

private def rotate32 (value count : UInt32) : UInt32 :=
  (value >>> count) ||| (value <<< (32 - count))

private def rotate64 (value count : UInt64) : UInt64 :=
  (value >>> count) ||| (value <<< (64 - count))

private def words32 : Words UInt32 where
  add := (· + ·)
  xor := (· ^^^ ·)
  and := (· &&& ·)
  not := (~~~ ·)
  zero := 0
  sumA := fun x => rotate32 x 2 ^^^ rotate32 x 13 ^^^ rotate32 x 22
  sumE := fun x => rotate32 x 6 ^^^ rotate32 x 11 ^^^ rotate32 x 25
  earlySum := fun x => rotate32 x 7 ^^^ rotate32 x 18 ^^^ (x >>> 3)
  lateSum := fun x => rotate32 x 17 ^^^ rotate32 x 19 ^^^ (x >>> 10)

private def words64 : Words UInt64 where
  add := (· + ·)
  xor := (· ^^^ ·)
  and := (· &&& ·)
  not := (~~~ ·)
  zero := 0
  sumA := fun x => rotate64 x 28 ^^^ rotate64 x 34 ^^^ rotate64 x 39
  sumE := fun x => rotate64 x 14 ^^^ rotate64 x 18 ^^^ rotate64 x 41
  earlySum := fun x => rotate64 x 1 ^^^ rotate64 x 8 ^^^ (x >>> 7)
  lateSum := fun x => rotate64 x 19 ^^^ rotate64 x 61 ^^^ (x >>> 6)

/-! ## Digests -/

def digest256 (message : List UInt8) : String :=
  let blocks := (pieces 64 (pad 64 8 (bigEndian 8) message)).map fun block =>
    (pieces 4 block).map fun bytes => UInt32.ofNat (ofBigEndian bytes)
  hexText ((blocks.foldl (absorb words32 rounds32) start32).flatMap fun word =>
    bigEndian 4 word.toNat)

def digest512 (message : List UInt8) : String :=
  let blocks := (pieces 128 (pad 128 16 (bigEndian 16) message)).map fun block =>
    (pieces 8 block).map fun bytes => UInt64.ofNat (ofBigEndian bytes)
  hexText ((blocks.foldl (absorb words64 rounds64) start64).flatMap fun word =>
    bigEndian 8 word.toNat)

end Groundplan.Digest.Sha2
