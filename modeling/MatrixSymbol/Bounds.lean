/-
The pixels between which a symbol lies (`measurePureGrid`, section 3.4 of the specification).

* `Bounds.ofCells`: from the first to the last dark pixel. These are extremes row by row, so that
  the right bound may lie left of the left one.
* `Bounds.isEmpty`, `Bounds.stretch`: an axis on which the bounds do not enclose two pixels, and the
  bounds with each such axis stretched.
-/
import MatrixSymbol.Bitmap.Basic

namespace MatrixSymbol

/-- A rectangle of pixels, all four sides included. -/
structure Bounds where
  left : Int
  top : Int
  right : Int
  bottom : Int
  deriving DecidableEq, Repr

namespace Bounds

/-- The bounds from one pixel to another. -/
def ofCells (first last : Cell) : Bounds := ⟨first.x, first.y, last.x, last.y⟩

/-- Some axis encloses fewer than two pixels. -/
def isEmpty (b : Bounds) : Bool := b.right ≤ b.left || b.bottom ≤ b.top

/-- The correction of degenerate bounds: each axis that encloses fewer than two pixels is stretched
by `reach` pixels, but not beyond the image. -/
def stretch (b : Bounds) (reach : Int) (width height : Nat) : Bounds :=
  { b with
    right := if b.right ≤ b.left then min (width - 1) (b.left + reach) else b.right
    bottom := if b.bottom ≤ b.top then min (height - 1) (b.top + reach) else b.bottom }

/-- The number of pixel columns. -/
def columns (b : Bounds) : Int := b.right - b.left + 1

/-- The number of pixel rows. -/
def rows (b : Bounds) : Int := b.bottom - b.top + 1

end Bounds

end MatrixSymbol
