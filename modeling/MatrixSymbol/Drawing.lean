/-
Drawing modules as squares of pixels (`renderModules`, for the tests of section 1.4).

* `Drawing.extent`: the length of a side of a drawing, rounded as numbers are. A drawing whose side
  is rounded to infinity is refused for its sides, any other that is too large for its storage.
* `Drawing.ink`: whether a pixel belongs to a dark module, for modules of `size` pixels a side
  inside a light margin. `Drawing.squares` is the bitmap it shows.
* `Drawing.paint`: the drawing for arbitrary numbers. Every pixel of a dark module is set in turn,
  and the first one that is no pixel of the image is a fault.
* `Drawing.render`: the drawing by `squares` where size and margin are natural numbers and the size
  is not zero, and by `paint` otherwise.

The width is that of the top row: cells past it are not drawn, and cells missing from a shorter row
are light.
-/
import MatrixSymbol.Bitmap.Basic

namespace MatrixSymbol

/-- Rows of modules from the top, dark where `true`. -/
abbrev Modules := List (List Bool)

namespace Modules

/-- The number of columns: the length of the top row. -/
def columns (modules : Modules) : Nat := (modules.headD []).length

/-- Whether a module is dark; what a row lacks is light. -/
def isDark (modules : Modules) (x y : Nat) : Bool := (modules.getD y []).getD x false

/-- The dark modules among the drawn columns, row by row. -/
def darkCells (modules : Modules) : List Cell :=
  modules.zipIdx.flatMap fun (row, y) =>
    (row.take modules.columns).zipIdx.filterMap fun (dark, x) => if dark then some ⟨x, y⟩ else none

end Modules

namespace Drawing

/-! ### Sides -/

/-- The pixels that a side of `n` modules takes, margins included. -/
def extent (n : Nat) (size margin : Number) : Number := Number.ofNat n * size + 2 * margin

/-- Why there is no drawing with given sides. -/
def refusal (width height : Number) : Fault :=
  match width.toNat?, height.toNat? with
  | some (_ + 1), some (_ + 1) => .storage
  | _, _ => .sides width height

/-! ### Whole squares -/

/-- Whether a pixel lies on a dark module, for modules of `size` pixels a side inside a margin of
`margin` pixels. -/
def ink (columns : Nat) (dark : Nat → Nat → Bool) (size margin x y : Nat) : Bool :=
  decide (margin ≤ x) && decide (margin ≤ y) && decide ((x - margin) / size < columns)
    && dark ((x - margin) / size) ((y - margin) / size)

/-- The pixels that a side of `n` modules takes, margins included, without rounding. -/
def side (n size margin : Nat) : Nat := n * size + 2 * margin

/-- The drawing of modules as squares of `size` pixels a side, if there is room for it. -/
def squares (modules : Modules) (size margin : Nat) : Except Fault Bitmap :=
  let grid := (modules.map List.toArray).toArray
  let dark x y := (grid.getD y #[]).getD x false
  let width := side modules.columns size margin
  let height := side modules.length size margin
  if room : (0 < width ∧ 0 < height) ∧ width * height ≤ Bitmap.capacity then
    .ok (Bitmap.ofFn width height room.1.1 room.1.2 room.2
      (ink modules.columns dark size margin))
  else
    .error (refusal (extent modules.columns (.ofNat size) (.ofNat margin))
      (extent modules.length (.ofNat size) (.ofNat margin)))

/-! ### Arbitrary numbers -/

/-- The whole steps `0, 1, 2, …` below a number, as many as a side of `bound` pixels can hold and
one more. -/
def stepsBelow (bound : Nat) (size : Number) : List Number :=
  ((List.range (bound + 1)).map Number.ofNat).takeWhile (·.lt size)

/-- Sets the pixels of one module, row by row. -/
def paintModule (size margin : Number) (b : Bitmap) (c : Cell) : Except Fault Bitmap :=
  (stepsBelow b.height size).foldlM
    (fun b dy =>
      (stepsBelow b.width size).foldlM
        (fun b dx =>
          b.set (margin + Number.ofNat c.x * size + dx) (margin + Number.ofNat c.y * size + dy)
            true)
        b)
    b

/-- The drawing of modules, painted module by module. -/
def paint (modules : Modules) (size margin : Number) : Except Fault Bitmap := do
  let image ← Bitmap.blank (extent modules.columns size margin) (extent modules.length size margin)
  modules.darkCells.foldlM (paintModule size margin) image

/-- The drawing of modules (`renderModules`), each a square of `size` pixels a side, inside a
margin. There has to be a row of modules, and the sides of the drawing have to be positive whole
numbers. -/
def render (modules : Modules) (size margin : Number) : Except Fault Bitmap :=
  if modules.isEmpty then .error .missing
  else match size.toNat?, margin.toNat? with
    | some (m + 1), some q => squares modules (m + 1) q
    | _, _ => paint modules size margin

/-- On natural numbers, with at least one pixel a module, a drawing consists of squares. -/
theorem render_ofNat {modules : Modules} (h : modules.isEmpty = false) (size margin : Nat) :
    render modules (.ofNat (size + 1)) (.ofNat margin) = squares modules (size + 1) margin := by
  simp [render, h]

end Drawing

end MatrixSymbol
