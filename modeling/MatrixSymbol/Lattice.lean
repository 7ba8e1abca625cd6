/-
The lattice of module centres of an upright symbol that fills most of its image (`measurePureGrid`,
section 3.4 of the specification).

Everything is read off the pixels: the bounds from the first and last dark pixel, the pitch from
changes of colour, the sides from both. Each step is checked, and a contradiction ends in a failure
rather than in a corrupt grid. All of it is arithmetic of whole numbers and fractions; the results
of division and multiplication go through the rounding `round`.

* `Lattice.squareUp`: sides that differ by too much fall back to the smaller one.
* `Lattice.fit`: where the samples of one axis start, and how far the last would land past the
  symbol.
* `Lattice.within`, `Lattice.counted`, `Lattice.placed`: the lattice between the first and the last
  dark pixel, between bounds that enclose something, and of given sides.
* `Lattice.measure`: the lattice of an image.
* `Lattice.column`, `Lattice.row`: the pixel at which a module is sampled.
-/
import MatrixSymbol.Pitch

namespace MatrixSymbol

/-- Evenly spaced samples: the distance between them, the pixel of the first, and how many there are
in each direction. -/
structure Lattice where
  pitch : Rat
  left : Int
  top : Int
  width : Nat
  height : Nat
  deriving DecidableEq, Repr

namespace Lattice

/-- The modules along a side of the smallest symbol (`MIN_MODULE_COUNT`). -/
def minModules : Nat := 21

/-! ### One axis at a time -/

variable (round : Rat → Rat)

/-- The offset of a module from the first one: whole pixels, rounded down. -/
def offset (pitch : Rat) (k : Int) : Int := (round (k * pitch)).floor

/-- The number of modules in a span of pixels, to the nearest whole number. -/
def modulesIn (span : Int) (pitch : Rat) : Int := (round (span / pitch) + 1 / 2).floor

/-- The samples of one axis: where they start, and how far the last would land past the symbol. -/
structure Fit where
  start : Int
  excess : Int
  deriving DecidableEq, Repr

/-- Samples start half a module inside the symbol. If the last one then lands past it, all move back
by as much. -/
def fit (pitch : Rat) (nudge low high : Int) (count : Int) : Fit :=
  let start := low + nudge
  let excess := start + offset round pitch (count - 1) - high
  { start := if 0 < excess then start - excess else start, excess }

/-- Moving back by more than half a module means that the count is wrong. -/
def Fit.isWrong (f : Fit) (nudge : Int) : Bool := 0 < f.excess && nudge < f.excess

/-! ### Both axes -/

/-- Symbols are square: sides that differ by more than a fifth of the smaller one fall back to it
(`squareUpDimensions`). -/
def squareUp (width height : Int) : Int × Int :=
  let smaller := min width height
  if smaller / 5 < (width - height).natAbs then (smaller, smaller) else (width, height)

/-- The same rule for arbitrary sides. -/
def squareUpNumbers (width height : Number) : Number × Number :=
  let smaller := width.min height
  if (smaller / 5).floor.lt (width - height).abs then (smaller, smaller) else (width, height)

/-- The lattice of given sides between given bounds. -/
def placed (pitch : Rat) (bounds : Bounds) (width height : Int) : Traced (Outcome Lattice) :=
  let nudge := (round (pitch / 2)).floor
  let across := fit round pitch nudge bounds.left bounds.right width
  let down := fit round pitch nudge bounds.top bounds.bottom height
  if across.isWrong nudge then pure (.error (.pastRightEdge across.excess))
  else if down.isWrong nudge then pure (.error (.pastBottomEdge down.excess))
  else do
    Traced.note (.origin nudge across.start down.start across.excess down.excess)
    pure (.ok ⟨pitch, across.start, down.start, width.toNat, height.toNat⟩)

/-- The lattice between bounds that enclose pixels on both axes. -/
def counted (pitch : Rat) (bounds : Bounds) : Traced (Outcome Lattice) :=
  let columns := modulesIn round bounds.columns pitch
  let rows := modulesIn round bounds.rows pitch
  let sides := squareUp columns rows
  if columns ≤ 0 ∨ rows ≤ 0 then pure (.error (.emptyGrid columns rows))
  else do
    Traced.note (.dimensions columns rows sides.1 sides.2)
    placed round pitch bounds sides.1 sides.2

/-- The lattice between the first and the last dark pixel. An axis on which these do not enclose
anything is stretched as far as the smallest symbol reaches. -/
def within (image : Bitmap) (pitch : Rat) (raw : Bounds) : Traced (Outcome Lattice) := do
  Traced.note (.rawBounds raw)
  if raw.isEmpty then
    let bounds := raw.stretch (offset round pitch minModules) image.width image.height
    Traced.note (.stretchedBounds bounds)
    if bounds.isEmpty then
      pure (.error (.emptyBounds bounds.left bounds.top bounds.right bounds.bottom))
    else counted round pitch bounds
  else counted round pitch raw

/-- The lattice of an image (`measurePureGrid`). -/
def measure (image : Bitmap) : Attempt (Outcome Lattice) := do
  match image.firstOn?, image.lastOn? with
  | some first, some last =>
    match ← Pitch.estimate round image (.ofNat first.x) (.ofNat first.y) with
    | .error failure => return .error failure
    | .ok pitch => ExceptT.lift (within round image pitch (Bounds.ofCells first last))
  | _, _ => return .error .blankImage

/-! ### Sampling -/

/-- The pixel column at which a column of modules is sampled. -/
def column (l : Lattice) (x : Nat) : Int := l.left + offset round l.pitch x

/-- The pixel row at which a row of modules is sampled. -/
def row (l : Lattice) (y : Nat) : Int := l.top + offset round l.pitch y

end Lattice

end MatrixSymbol
