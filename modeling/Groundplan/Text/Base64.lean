/-!
The encoding of bytes by the 64 letters of the standard alphabet, with padding.
Every list of bytes has one encoding, and nothing else is read.
-/

namespace Groundplan.Text.Base64

def alphabet : List Char :=
  "ABCDEFGHIJKLMNOPQRSTUVWXYZabcdefghijklmnopqrstuvwxyz0123456789+/".toList

private def letter (value : Nat) : Char := (alphabet[value]?).getD '='

/-- The letters of a list of bytes, four for every three bytes. -/
def encode : List UInt8 → List Char
  | [] => []
  | [a] => [letter (a.toNat / 4), letter (a.toNat % 4 * 16), '=', '=']
  | [a, b] =>
      [letter (a.toNat / 4), letter (a.toNat % 4 * 16 + b.toNat / 16),
        letter (b.toNat % 16 * 4), '=']
  | a :: b :: c :: rest =>
      letter (a.toNat / 4) :: letter (a.toNat % 4 * 16 + b.toNat / 16) ::
        letter (b.toNat % 16 * 4 + c.toNat / 64) :: letter (c.toNat % 64) :: encode rest

private def value? (c : Char) : Option Nat :=
  (alphabet.zipIdx.find? fun entry => entry.1 == c).map Prod.snd

/-- The bytes of a list of letters. The bits that padding leaves over have to be
zero. -/
def decode : List Char → Option (List UInt8)
  | [] => some []
  | [a, b, '=', '='] => do
      let (a, b) := (← value? a, ← value? b)
      if b % 16 = 0 then some [.ofNat (a * 4 + b / 16)] else none
  | [a, b, c, '='] => do
      let (a, b, c) := (← value? a, ← value? b, ← value? c)
      if c % 4 = 0 then some [.ofNat (a * 4 + b / 16), .ofNat (b % 16 * 16 + c / 4)] else none
  | a :: b :: c :: d :: rest => do
      let (a, b, c, d) := (← value? a, ← value? b, ← value? c, ← value? d)
      return .ofNat (a * 4 + b / 16) :: .ofNat (b % 16 * 16 + c / 4) :: .ofNat (c % 4 * 64 + d) ::
        (← decode rest)
  | _ => none

example : encode [97] = ['Y', 'Q', '=', '='] := by decide

example : decode ['Y', 'R', '=', '='] = none := by decide

end Groundplan.Text.Base64
