/-
Rounding a fraction to the nearest binary64 value.

A binary64 value is a multiple `k * 2 ^ u` with `|k| ≤ 2 ^ 53` and `-1074 ≤ u`. The unit `2 ^ u` is
fixed by the size of the fraction: 53 binary digits are kept, fewer near zero, where the unit stops
shrinking.

* `roundEven`: the nearest integer, a half going to the even neighbour.
* `unitExponent`: the exponent `u` of the unit in which a fraction is rounded.
* `nearest`: the fraction rounded in its unit. Size is not bounded here; a result of `2 ^ 1024` or
  more is an overflow, which `MatrixSymbol.Number.ofRat` turns into an infinity.
-/

namespace MatrixSymbol

namespace Binary64

/-! ### Powers and integer rounding -/

/-- The power of a base with an integer exponent. -/
def power (base : Nat) : Int → Rat
  | .ofNat n => (base.pow n : Nat)
  | .negSucc n => 1 / (base.pow (n + 1) : Nat)

/-- The nearest integer; a half goes to the even neighbour. -/
def roundEven (q : Rat) : Int :=
  let k := q.floor
  if q - k < 1 / 2 then k
  else if 1 / 2 < q - k then k + 1
  else k + k % 2

/-! ### The unit of a fraction -/

/-- The binary exponent of a positive fraction: `2 ^ e ≤ n / d < 2 ^ (e + 1)`. -/
def exponent (n d : Nat) : Int :=
  let e := (n.log2 : Int) - d.log2
  if d * Nat.pow 2 e.toNat ≤ n * Nat.pow 2 (-e).toNat then e else e - 1

/-- The exponent of the unit in which a fraction is rounded: 53 significant binary digits, and no
unit below `2 ^ (-1074)`. -/
def unitExponent (q : Rat) : Int :=
  max (exponent q.num.natAbs q.den - 52) (-1074)

/-- The multiple of its unit that is nearest to a fraction. -/
def nearest (q : Rat) : Rat :=
  let unit := power 2 (unitExponent q)
  roundEven (q / unit) * unit

end Binary64

end MatrixSymbol
