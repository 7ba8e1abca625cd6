/-
What a scanner reports about an image (`ZXingReadResult`, section 3.6 of the specification).

* `Sighting`: a symbol as the scanner read it.
* `Luma`: a grid of modules as light values, one byte each; `Luma.toBitmap` tells dark from light by
  a threshold.
* `Corners`: where the symbol lies in the scanned image. `Corners.toBitmap` maps points of an image
  of a bitmap back to the bitmap, and puts them into the order of the finder patterns.
-/
import MatrixSymbol.Bitmap.Basic
import MatrixSymbol.Point

namespace MatrixSymbol

/-! ### Light values -/

/-- A grid of light values, row by row (`ZXingSymbol`). -/
structure Luma where
  data : Array UInt8
  width : Number
  height : Number
  deriving DecidableEq

/-- The bitmap of the modules that are darker than a threshold; a missing value is light
(`symbolToBitMatrix`). -/
def Luma.toBitmap (l : Luma) (threshold : Number) : Except Fault Bitmap :=
  let width := l.width.toNat?.getD 0
  Bitmap.draw l.width l.height fun x y =>
    match l.data[y * width + x]? with
    | some value => (Number.ofNat value.toNat).lt threshold
    | none => false

/-- Whether there are modules at all. -/
def Luma.isEmpty (l : Luma) : Bool := l.width.le 0 || l.height.le 0

/-! ### Corners -/

/-- The corners of a symbol in an image. -/
structure Corners where
  topLeft : Point
  topRight : Point
  bottomRight : Point
  bottomLeft : Point
  deriving DecidableEq, Repr

/-- The corners in the order of the finder patterns, bottom-left, top-left, top-right, and then the
fourth, as points of the bitmap that an image shows with `scale` pixels a cell and a margin of
`quiet` cells (`toMatrix`, in `createZXingDetector`). -/
def Corners.toBitmap (c : Corners) (scale quiet : Number) : List Point :=
  [c.bottomLeft, c.topLeft, c.topRight, c.bottomRight].map fun p =>
    ⟨p.x / scale - quiet, p.y / scale - quiet⟩

/-! ### Sightings -/

/-- A symbol as a scanner read it (`ZXingReadResult`). -/
structure Sighting where
  text : String
  bytes : List UInt8
  corners : Corners
  isValid : Bool
  report : String
  level : String
  isReflected : Bool
  index : Number
  size : Number
  sequence : String
  symbol : Option Luma

end MatrixSymbol
