/-
Pixel buffers: images of four bytes a pixel, as a scanner takes them (`bitMatrixToImageData`,
section 3.6 of the specification).

* `PixelBuffer.length`: the bytes that a buffer of given sides holds.
* `PixelBuffer.squares`: a bitmap in black on white, each cell a square of pixels inside a margin of
  whole cells.
* `PixelBuffer.paint`: the same for arbitrary numbers, byte by byte. A byte is written only if its
  index is a whole number inside the buffer, so that a cell may be lost, or land on another row.
* `PixelBuffer.ofBitmap`: the image of a bitmap.
-/
import MatrixSymbol.Bitmap.Basic

namespace MatrixSymbol

/-- An image: red, green, blue and opacity of each pixel, row by row. -/
structure PixelBuffer where
  width : Number
  height : Number
  data : Array UInt8
  deriving DecidableEq

namespace PixelBuffer

/-- The name of the colours that the bytes stand for. -/
def colourSpace : String := "srgb"

/-- The number of bytes of a buffer: four a pixel, whole bytes only. An undefined number is none,
and a negative or too great one is a fault. -/
def length (width height : Number) : Except Fault Nat :=
  match width * height * 4 with
  | .finite q =>
    if q ≤ -1 then .error .storage
    else if Bitmap.capacity < q.floor then .error .storage
    else .ok q.floor.toNat
  | .infinite _ => .error .storage
  | .negZero | .nan => .ok 0

/-! ### Whole squares -/

/-- Whether a pixel is black, for cells of `scale` pixels a side inside a margin of `quiet` cells.
-/
def isBlack (b : Bitmap) (scale quiet px py : Nat) : Bool :=
  decide (quiet ≤ px / scale) && decide (quiet ≤ py / scale)
    && b.isOn (px / scale - quiet) (py / scale - quiet)

/-- The image of a bitmap with cells of `scale` pixels a side inside a margin of `quiet` cells. -/
def squares (b : Bitmap) (scale quiet : Nat) : Except Fault PixelBuffer :=
  let width := (b.width + 2 * quiet) * scale
  let height := (b.height + 2 * quiet) * scale
  if width * height * 4 ≤ Bitmap.capacity then
    .ok {
      width := .ofNat width
      height := .ofNat height
      data := Array.ofFn fun i : Fin (width * height * 4) =>
        if i.val % 4 < 3 && isBlack b scale quiet (i.val / 4 % width) (i.val / 4 / width) then 0
        else 255 }
  else .error .storage

/-! ### Arbitrary numbers -/

/-- Writes a zero where the index is one of the buffer. -/
def blacken (data : Array UInt8) (index : Number) : Array UInt8 :=
  match index.toNat? with
  | some i => data.setIfInBounds i 0
  | none => data

/-- The whole steps `0, 1, 2, …` below a number. -/
def stepsBelow (scale : Number) : List Number :=
  match scale.toRat? with
  | some q => (List.range q.ceil.toNat).map .ofNat
  | none => []

/-- Blackens the pixels of one cell, row by row. -/
def paintCell (scale quiet width : Number) (data : Array UInt8) (c : Cell) : Array UInt8 :=
  let steps := stepsBelow scale
  steps.foldl
    (fun data sy =>
      steps.foldl
        (fun data sx =>
          let px := (.ofNat c.x + quiet) * scale + sx
          let py := (.ofNat c.y + quiet) * scale + sy
          let index := (py * width + px) * 4
          blacken (blacken (blacken data index) (index + 1)) (index + 2))
        data)
    data

/-- The on cells of a bitmap, row by row. -/
def onCells (b : Bitmap) : List Cell :=
  (List.range b.height).flatMap fun y =>
    (List.range b.width).filterMap fun x => if b.isOn x y then some ⟨x, y⟩ else none

/-- The image of a bitmap, painted cell by cell. -/
def paint (b : Bitmap) (scale quiet : Number) : Except Fault PixelBuffer := do
  let width := (.ofNat b.width + 2 * quiet) * scale
  let height := (.ofNat b.height + 2 * quiet) * scale
  let size ← length width height
  let cells := if size = 0 then [] else onCells b
  return { width, height,
           data := cells.foldl (paintCell scale quiet width) (Array.replicate size 255) }

/-- The image of a bitmap in black on white (`bitMatrixToImageData`): `scale` pixels a cell, inside
a margin of `quiet` cells. -/
def ofBitmap (b : Bitmap) (scale quiet : Number) : Except Fault PixelBuffer :=
  match scale.toNat?, quiet.toNat? with
  | some (s + 1), some q => squares b (s + 1) q
  | _, _ => paint b scale quiet

/-- On natural numbers, with at least one pixel a cell, the image consists of squares. -/
theorem ofBitmap_ofNat (b : Bitmap) (scale quiet : Nat) :
    ofBitmap b (.ofNat (scale + 1)) (.ofNat quiet) = squares b (scale + 1) quiet := by
  simp [ofBitmap]

end PixelBuffer

end MatrixSymbol
