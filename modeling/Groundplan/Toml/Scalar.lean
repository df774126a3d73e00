import Groundplan.Toml
/-!
Scalars of TOML that are written without quotes: booleans, numbers, dates and
times.
-/

namespace Groundplan.Toml

/-! ## Numbers -/

/-- Digits with single underscores between them, without the underscores. -/
def plainDigits? (isDigit : Char → Bool) : List Char → Option (List Char)
  | [] => none
  | [last] => if isDigit last then some [last] else none
  | first :: '_' :: rest =>
      if isDigit first then (plainDigits? isDigit rest).map (first :: ·) else none
  | first :: rest =>
      if isDigit first then (plainDigits? isDigit rest).map (first :: ·) else none

private def digitValue (c : Char) : Nat :=
  if c.isDigit then c.toNat - '0'.toNat
  else c.toLower.toNat - 'a'.toNat + 10

/-- Whether a character is a digit in a base of at most sixteen. -/
private def isDigitIn (base : Nat) (c : Char) : Bool :=
  (c.isDigit || ('a' ≤ c.toLower && c.toLower ≤ 'f')) && digitValue c < base

private def ofDigitsIn (base : Nat) (digits : List Char) : Nat :=
  digits.foldl (fun total digit => base * total + digitValue digit) 0

private def base? : Char → Option Nat
  | 'x' => some 16
  | 'o' => some 8
  | 'b' => some 2
  | _ => none

private def signed64? (value : Int) : Option Toml :=
  if -(signedLimit : Int) ≤ value && value < signedLimit then some (integer value) else none

/-- Decimal digits without a zero in front of others. -/
private def wholeDigits? (text : List Char) : Option (List Char) := do
  let digits ← plainDigits? Char.isDigit text
  if digits.head? == some '0' && digits.length > 1 then none else some digits

private def exponent? (text : List Char) : Option Int := do
  let (negative, rest) := Decimal.spanSign text
  let size : Int := Decimal.ofDigits (← plainDigits? Char.isDigit rest)
  return if negative then -size else size

private def isExponentMark (c : Char) : Bool := c == 'e' || c == 'E'

/-- A number with the digits `whole` before and `places` after the point. -/
private def fractional? (negative : Bool) (whole places : List Char) (exponent : Int) :
    Option Toml :=
  let size := Binary64.ofDecimal (Decimal.ofDigits (whole ++ places) : Nat)
    (exponent - (places.length : Int))
  if size.isFinite then some (float (if negative then size.neg else size)) else none

/-- A decimal number after its sign: whole, or with a fraction or an exponent. -/
private def decimal? (negative : Bool) (text : List Char) : Option Toml := do
  let mantissa := text.takeWhile (!isExponentMark ·)
  let whole ← wholeDigits? (mantissa.takeWhile (· != '.'))
  match mantissa.dropWhile (· != '.'), text.dropWhile (!isExponentMark ·) with
  | [], [] =>
      let size : Int := Decimal.ofDigits whole
      signed64? (if negative then -size else size)
  | [], _ :: exponent => fractional? negative whole [] (← exponent? exponent)
  | _ :: places, [] => fractional? negative whole (← plainDigits? Char.isDigit places) 0
  | _ :: places, _ :: exponent =>
      fractional? negative whole (← plainDigits? Char.isDigit places) (← exponent? exponent)

def number? (text : List Char) : Option Toml :=
  match text with
  | '0' :: mark :: digits =>
      match base? mark with
      | some base =>
          (plainDigits? (isDigitIn base) digits).bind fun digits =>
            signed64? (ofDigitsIn base digits : Nat)
      | none => decimal? false text
  | _ =>
      let (negative, rest) := Decimal.spanSign text
      match String.ofList rest with
      | "inf" => some (float (.infinite negative))
      | "nan" => some (float .notNumber)
      | _ => decimal? negative rest

/-! ## Dates and times -/

/-- A number of exactly `width` digits at the start of a text. -/
private def spanNumber? (width : Nat) (text : List Char) : Option (Nat × List Char) :=
  let digits := text.take width
  if digits.length = width && digits.all Char.isDigit then
    some (Decimal.ofDigits digits, text.drop width)
  else none

private def dropChar? (wanted : Char) : List Char → Option (List Char)
  | c :: rest => if c = wanted then some rest else none
  | [] => none

private def isLeap (year : Nat) : Bool :=
  year % 4 == 0 && (year % 100 != 0 || year % 400 == 0)

private def daysIn (year month : Nat) : Nat :=
  match month with
  | 2 => if isLeap year then 29 else 28
  | 4 | 6 | 9 | 11 => 30
  | _ => 31

private def padded (width value : Nat) : String :=
  let digits := Nat.toDigits 10 value
  String.ofList (List.replicate (width - digits.length) '0' ++ digits)

/-- The text of a date at the start of a text. -/
def spanDate? (text : List Char) : Option (String × List Char) := do
  let (year, rest) ← spanNumber? 4 text
  let (month, rest) ← spanNumber? 2 (← dropChar? '-' rest)
  let (day, rest) ← spanNumber? 2 (← dropChar? '-' rest)
  if 1 ≤ month && month ≤ 12 && 1 ≤ day && day ≤ daysIn year month then
    some (padded 4 year ++ "-" ++ padded 2 month ++ "-" ++ padded 2 day, rest)
  else none

/-- A fraction of a second: at most nine digits count, and zeros at the end do not. -/
private def spanFraction? : List Char → Option (String × List Char)
  | '.' :: rest =>
      match Decimal.spanDigits rest with
      | ([], _) => none
      | (digits, rest) =>
          let kept := ((digits.take 9).reverse.dropWhile (· == '0')).reverse
          some (if kept.isEmpty then "" else String.ofList ('.' :: kept), rest)
  | rest => some ("", rest)

/-- The text of a time at the start of a text; its seconds can be left out. -/
def spanTime? (text : List Char) : Option (String × List Char) := do
  let (hour, rest) ← spanNumber? 2 text
  let (minute, rest) ← spanNumber? 2 (← dropChar? ':' rest)
  if hour > 23 || minute > 59 then none
  let upToMinute := padded 2 hour ++ ":" ++ padded 2 minute
  match rest with
  | ':' :: rest =>
      let (second, rest) ← spanNumber? 2 rest
      let (fraction, rest) ← spanFraction? rest
      if second > 60 then none else some (upToMinute ++ ":" ++ padded 2 second ++ fraction, rest)
  | rest => some (upToMinute, rest)

/-- The text of an offset from universal time that is the rest of a text. -/
def offset? : List Char → Option String
  | [] => some ""
  | ['Z'] => some "Z"
  | ['z'] => some "Z"
  | sign :: rest => do
      if sign != '+' && sign != '-' then none
      let (hour, rest) ← spanNumber? 2 rest
      let (minute, rest) ← spanNumber? 2 (← dropChar? ':' rest)
      if hour > 23 || minute > 59 || !rest.isEmpty then none
      let shown := if sign = '-' && hour + minute > 0 then "-" else "+"
      some (shown ++ padded 2 hour ++ ":" ++ padded 2 minute)

/-- A date, a time, or both, with an offset if there are both. -/
def dateTime? (text : List Char) : Option Toml :=
  match spanDate? text with
  | some (date, []) => some (dateTime date)
  | some (date, mark :: rest) => do
      if mark != 'T' && mark != 't' && mark != ' ' then none
      let (time, rest) ← spanTime? rest
      return dateTime (date ++ "T" ++ time ++ (← offset? rest))
  | none =>
      match spanTime? text with
      | some (time, []) => some (dateTime time)
      | _ => none

def scalar? (text : List Char) : Option Toml :=
  match String.ofList text with
  | "true" => some (bool true)
  | "false" => some (bool false)
  | _ => (dateTime? text).or (number? text)

example : (plainDigits? Char.isDigit "1_000".toList).isSome = true := by decide

example : plainDigits? Char.isDigit "1__0".toList = none := by decide

end Groundplan.Toml
