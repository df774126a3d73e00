import Groundplan.Digest.Blocks
/-!
The message digest of 128 bits.
-/

namespace Groundplan.Digest.Md5

/-- The whole part of `2 ^ 32 * |sin i|` for `i` from 1 to 64. -/
def sines : List UInt32 :=
  [0xd76aa478, 0xe8c7b756, 0x242070db, 0xc1bdceee, 0xf57c0faf, 0x4787c62a, 0xa8304613, 0xfd469501,
   0x698098d8, 0x8b44f7af, 0xffff5bb1, 0x895cd7be, 0x6b901122, 0xfd987193, 0xa679438e, 0x49b40821,
   0xf61e2562, 0xc040b340, 0x265e5a51, 0xe9b6c7aa, 0xd62f105d, 0x02441453, 0xd8a1e681, 0xe7d3fbc8,
   0x21e1cde6, 0xc33707d6, 0xf4d50d87, 0x455a14ed, 0xa9e3e905, 0xfcefa3f8, 0x676f02d9, 0x8d2a4c8a,
   0xfffa3942, 0x8771f681, 0x6d9d6122, 0xfde5380c, 0xa4beea44, 0x4bdecfa9, 0xf6bb4b60, 0xbebfbc70,
   0x289b7ec6, 0xeaa127fa, 0xd4ef3085, 0x04881d05, 0xd9d4d039, 0xe6db99e5, 0x1fa27cf8, 0xc4ac5665,
   0xf4292244, 0x432aff97, 0xab9423a7, 0xfc93a039, 0x655b59c3, 0x8f0ccc92, 0xffeff47d, 0x85845dd1,
   0x6fa87e4f, 0xfe2ce6e0, 0xa3014314, 0x4e0811a1, 0xf7537e82, 0xbd3af235, 0x2ad7d2bb, 0xeb86d391]

structure State where
  a : UInt32
  b : UInt32
  c : UInt32
  d : UInt32

def start : State := ⟨0x67452301, 0xefcdab89, 0x98badcfe, 0x10325476⟩

private def rotate (value count : UInt32) : UInt32 :=
  (value <<< count) ||| (value >>> (32 - count))

private def rotation (step : Nat) : UInt32 :=
  let round : List UInt32 :=
    if step < 16 then [7, 12, 17, 22]
    else if step < 32 then [5, 9, 14, 20]
    else if step < 48 then [4, 11, 16, 23]
    else [6, 10, 15, 21]
  (round[step % 4]?).getD 0

/-- The mixing function of a step and the position of the word it adds. -/
private def mixing (state : State) (step : Nat) : UInt32 × Nat :=
  if step < 16 then ((state.b &&& state.c) ||| (~~~state.b &&& state.d), step)
  else if step < 32 then ((state.d &&& state.b) ||| (~~~state.d &&& state.c), (5 * step + 1) % 16)
  else if step < 48 then (state.b ^^^ state.c ^^^ state.d, (3 * step + 5) % 16)
  else (state.c ^^^ (state.b ||| ~~~state.d), 7 * step % 16)

private def step (words : List UInt32) (state : State) (entry : UInt32 × Nat) : State :=
  let (mixed, position) := mixing state entry.2
  let sum := mixed + state.a + entry.1 + (words[position]?).getD 0
  ⟨state.d, state.b + rotate sum (rotation entry.2), state.b, state.c⟩

private def absorb (state : State) (block : List UInt8) : State :=
  let words := (pieces 4 block).map fun bytes => UInt32.ofNat (ofLittleEndian bytes)
  let next := sines.zipIdx.foldl (step words) state
  ⟨state.a + next.a, state.b + next.b, state.c + next.c, state.d + next.d⟩

def digest (message : List UInt8) : String :=
  let final := (pieces 64 (pad 64 8 (littleEndian 8) message)).foldl absorb start
  hexText ([final.a, final.b, final.c, final.d].flatMap fun word => littleEndian 4 word.toNat)

end Groundplan.Digest.Md5
