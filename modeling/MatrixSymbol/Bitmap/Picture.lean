/-
Bitmaps as rows and as text (`BitMatrix`, section 2 of the specification).

* `Bitmap.toRows`, `Bitmap.ofRows`: one list of cells for each row; rows of different length are a
  fault.
* `Bitmap.toText`, `Bitmap.parse`: one line of text for each row. Reading ignores blank lines and
  the blanks around a line; the one character that marks an on cell is given, and any other is off.
-/
import MatrixSymbol.Bitmap.Basic
import MatrixSymbol.Text.Blank

namespace MatrixSymbol

namespace Bitmap

/-! ### Rows -/

/-- The rows of a bitmap, from the top (`toRows`). -/
def toRows (b : Bitmap) : List (List Bool) :=
  (List.range b.height).map fun y => (List.range b.width).map fun x => b.isOn x y

/-- The first row, from row `y` on, whose length is not the given one. -/
def firstRagged? (width : Nat) : Nat → List (List Bool) → Option Fault
  | _, [] => none
  | y, row :: rest =>
    if row.length = width then firstRagged? width (y + 1) rest
    else some (.ragged y row.length width)

/-- The bitmap of the given rows (`fromRows`). There has to be a row, the first may not be empty,
and all have to be as long as the first. -/
def ofRows (rows : List (List Bool)) : Except Fault Bitmap := do
  let width := (rows.headD []).length
  let b ← blank (.ofNat width) (.ofNat rows.length)
  match firstRagged? width 0 rows with
  | some fault => throw fault
  | none =>
    let cells := rows.flatten.toArray
    return ofFn b.width b.height b.width_pos b.height_pos b.size_le fun x y =>
      cells.getD (y * b.width + x) false

/-! ### Text -/

/-- The word that ends a line. -/
def lineFeed : UInt16 := 0x0A

/-- The text of a bitmap (`toString`): a line for each row, with one text for on and one for off. -/
def toText (b : Bitmap) (on off : Text.Words) : Text.Words :=
  [lineFeed].intercalate <| b.toRows.map fun row =>
    row.flatMap fun value => if value then on else off

/-- The text for an on cell where the caller gives none. -/
def inkText : Text.Words := Text.ofString "█"

/-- The text for an off cell where the caller gives none. -/
def paperText : Text.Words := Text.ofString "░"

/-- The lines of a text, without the line feeds that end them. -/
def lines (text : Text.Words) : List Text.Words :=
  text.foldr
    (fun w acc =>
      if w = lineFeed then [] :: acc
      else match acc with
        | [] => [[w]]
        | line :: more => (w :: line) :: more)
    [[]]

/-- The rows of a picture: the lines that are not blank, trimmed, a cell being on where its
character is the given text. -/
def pictureRows (text on : Text.Words) : List (List Bool) :=
  (((lines text).map Text.trim).filter (!·.isEmpty)).map fun line =>
    (Text.characters line).map fun c => decide (c = on)

/-- The bitmap that a picture shows (`parse`). -/
def parse (text on : Text.Words) : Except Fault Bitmap := ofRows (pictureRows text on)

end Bitmap

end MatrixSymbol
