/-
The pitch of a symbol: the distance in pixels between the centres of neighbouring modules
(`estimateModuleSize`, section 3.2 of the specification).

From the corner of a finder pattern the diagonal crosses runs of 1, 1, 3, 1 and 1 modules and then
meets the light separator, so that five changes of colour span seven modules. The axes are measured
by the same rule.

Measuring divides, and the quotient is rounded: `round` is the rounding in use.

* `Pitch.ofScan?`: the pitch that a scan shows, if it met five changes before the edge.
* `Pitch.alongDiagonal`, `Pitch.alongAxis?`: the pitch measured from a pixel.
* `Pitch.estimate`: the mean over the diagonal and whichever axes give a measurement.
-/
import MatrixSymbol.Scan
import MatrixSymbol.Trace

namespace MatrixSymbol

namespace Pitch

/-! ### Measuring -/

/-- The changes of colour that a measurement needs (`REQUIRED_TRANSITIONS`). -/
def transitions : Nat := 5

/-- The modules that these changes span (`MODULES_SPANNED`). -/
def modules : Nat := 7

variable (round : Rat → Rat)

/-- The pitch that a scan shows, if it met enough changes before the edge. -/
def ofScan? (scan : Scan) : Option Rat :=
  if scan.reachedEdge || scan.transitions < transitions then none
  else some (round ((scan.distance : Rat) / (modules : Rat)))

/-- The mean of measurements, summed in order. -/
def mean (measurements : List Rat) : Rat :=
  round (measurements.foldl (fun sum m => round (sum + m)) 0 / (measurements.length : Rat))

/-- The scan that a measurement takes. -/
def scan (image : Bitmap) (x y : Number) (d : Direction) : Except Fault Scan :=
  Scan.along image x y d (.ofNat transitions)

/-- The pitch along the diagonal from a pixel (`moduleSizeFromDiagonal`). Without five changes there
is no symbol. -/
def alongDiagonal (image : Bitmap) (x y : Number) : Except Fault (Outcome Rat) := do
  let s ← scan image x y .diagonal
  return match ofScan? round s with
    | some pitch => .ok pitch
    | none => .error (.brokenDiagonal x y s.transitions transitions)

/-- The pitch along an axis from a pixel, if there are five changes (`moduleSizeOneWay`). -/
def alongAxis? (image : Bitmap) (x y : Number) (axis : Direction) :
    Except Fault (Option Rat) := do
  let s ← scan image x y axis
  return ofScan? round s

/-- The pitch of a symbol from its first dark pixel (`estimateModuleSize`): the mean over the
diagonal, which has to give a measurement, and the axes, which need not. -/
def estimate (image : Bitmap) (x y : Number) : Attempt (Outcome Rat) := do
  match ← Attempt.ofExcept (alongDiagonal round image x y) with
  | .error failure => return .error failure
  | .ok diagonal =>
    let horizontal ← Attempt.ofExcept (alongAxis? round image x y .horizontal)
    let vertical ← Attempt.ofExcept (alongAxis? round image x y .vertical)
    let pitch := mean round (diagonal :: horizontal.toList ++ vertical.toList)
    Attempt.note (.pitch diagonal horizontal vertical pitch)
    return .ok pitch

end Pitch

end MatrixSymbol
