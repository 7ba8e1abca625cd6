/-
Decimal text of numbers, as messages show them and `toDecodedPayload` reads them.

A number is written with the fewest significant digits that read back as the same number, and of
those with the digits nearest to it.

* `Binary64.Basin`: the fractions that round to a given value.
* `Binary64.shortest`: the digits and the place of the decimal point.
* `Number.toText`: the written form. The point stands among the digits from `0.000001` up to below
  `10 ^ 21`; outside that range an exponent follows one leading digit.
* `Number.ofIntegerText?`: the whole number at the start of a text.
-/
import MatrixSymbol.Number.Basic
import MatrixSymbol.Text.Blank

namespace MatrixSymbol

namespace Binary64

/-! ### The fractions that round to a value -/

/-- An interval of fractions, with or without its two ends. -/
structure Basin where
  low : Rat
  high : Rat
  closed : Bool

/-- Whether a fraction lies in the interval. -/
def Basin.contains (b : Basin) (q : Rat) : Bool :=
  if b.closed then b.low ≤ q && q ≤ b.high else b.low < q && q < b.high

/-- The fractions that round to a positive binary64 value: half a unit to either side, a quarter
below a power of two, where the units below are half as large. The ends belong to it when the value
is an even multiple of its unit. -/
def basin (v : Rat) : Basin :=
  let u := unitExponent v
  let unit := power 2 u
  let multiple := (v / unit).floor
  let below := if multiple = Nat.pow 2 52 ∧ -1074 < u then unit / 4 else unit / 2
  { low := v - below, high := v + unit / 2, closed := multiple % 2 = 0 }

/-! ### The shortest digits -/

/-- The number of decimal digits of a natural number. -/
def digitCount (n : Nat) : Nat := (Nat.toDigits 10 n).length

/-- The number of digits before the decimal point of a positive fraction, not positive when the
fraction starts with zeros: `10 ^ (p - 1) ≤ v < 10 ^ p`. -/
def pointPlace (v : Rat) : Int :=
  if 1 ≤ v then digitCount v.floor.toNat
  else 1 - (digitCount ((1 / v).ceil.toNat - 1) : Int)

/-- The multiple of `step` nearest to `v` among its two neighbours, if one of them rounds to `v`; at
equal distance the even one. -/
def neighbour? (v step : Rat) : Option Nat :=
  let f := (v / step).floor
  let lower := f * step
  let upper := (f + 1) * step
  let b := basin v
  match b.contains lower, b.contains upper with
  | true, true =>
    if v - lower < upper - v then some f.toNat
    else if upper - v < v - lower then some (f + 1).toNat
    else some (f + f % 2).toNat
  | true, false => some f.toNat
  | false, true => some (f + 1).toNat
  | false, false => none

/-- The significant digits of a positive binary64 value and the place of its decimal point: the
smallest count of digits for which some decimal rounds to the value. Seventeen always suffice. -/
def shortest (v : Rat) : List Char × Int :=
  let p := pointPlace v
  let found := (List.range 17).findSome? fun (k : Nat) =>
    let e := p - (k + 1)
    (neighbour? v (power 10 e)).map fun n => (Nat.toDigits 10 n, e)
  let (digits, e) := found.getD (['0'], 0)
  ((digits.reverse.dropWhile (· = '0')).reverse, e + digits.length)

end Binary64

namespace Number

/-! ### Written form -/

/-- Places before the point up to which a number is written without an exponent. -/
def longestWhole : Int := 21

/-- Zeros after the point up to which a number is written without an exponent. -/
def longestLeadingZeros : Int := 5

/-- Digits with the point at its place, or with one digit before the point and an exponent. -/
def layOut (digits : List Char) (place : Int) : String :=
  let count : Int := digits.length
  let zeros (n : Int) : List Char := List.replicate n.toNat '0'
  if count ≤ place ∧ place ≤ longestWhole then
    String.ofList (digits ++ zeros (place - count))
  else if 0 < place ∧ place ≤ longestWhole then
    String.ofList (digits.take place.toNat ++ '.' :: digits.drop place.toNat)
  else if -longestLeadingZeros ≤ place ∧ place ≤ 0 then
    String.ofList ('0' :: '.' :: zeros (-place) ++ digits)
  else
    let exponent := place - 1
    let mantissa := digits.take 1 ++ (if digits.length ≤ 1 then [] else '.' :: digits.drop 1)
    let sign := if exponent < 0 then '-' else '+'
    String.ofList (mantissa ++ 'e' :: sign :: Nat.toDigits 10 exponent.natAbs)

/-- The written form of a number: the fewest digits that read back. Both zeros are written alike. -/
def toText : Number → String
  | nan => "NaN"
  | infinite s => if s then "-Infinity" else "Infinity"
  | negZero => "0"
  | finite q =>
    if q = 0 then "0"
    else
      let (digits, place) := Binary64.shortest q.abs
      let body := layOut digits place
      if q < 0 then "-" ++ body else body

/-! ### Reading a whole number -/

/-- The value of a run of decimal digits. -/
def digitsValue (digits : List Char) : Nat :=
  digits.foldl (fun n c => 10 * n + (c.toNat - '0'.toNat)) 0

/-- The whole number at the start of a text: blanks are skipped, a sign may stand before the digits,
and whatever follows them is ignored. Without digits there is none. A minus sign before zeros gives
the negative zero. -/
def ofIntegerText? (text : String) : Option Number :=
  let (negative, body) :=
    match text.toList.dropWhile Text.isBlank with
    | '-' :: rest => (true, rest)
    | '+' :: rest => (false, rest)
    | chars => (false, chars)
  match body.takeWhile Char.isDigit with
  | [] => none
  | digits =>
    let magnitude := ofRat (digitsValue digits)
    some (if negative then magnitude.neg else magnitude)

end Number

end MatrixSymbol
