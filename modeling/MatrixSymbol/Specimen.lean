/-
Specimen symbols: drawn without noise, for trying out the reader (`syntheticModules`, for the tests
of section 1.4).

A specimen has a finder pattern in its top-left corner with a light separator on two sides, a dark
top row and a dark left column, and a dark module in its bottom-right corner; the other modules
follow a fixed pattern. Along the diagonal from the corner the colour changes as at a real finder
pattern, while along the top row and the left column it does not change.

* `Specimen.isDark`: the pattern; `Specimen.modules`: the specimen of a given side.
* `Specimen.modulesWithDataRow`: the top row reads as that of a real symbol instead, with a
  separator and data modules behind the finder pattern.
-/
import MatrixSymbol.Drawing

namespace MatrixSymbol

namespace Specimen

/-! ### The pattern -/

/-- The finder pattern: a dark ring of seven modules a side around a dark core of three
(`isFinderModule`). -/
def isFinderDark (x y : Nat) : Bool :=
  x == 0 || x == 6 || y == 0 || y == 6 || (2 ≤ x && x ≤ 4 && 2 ≤ y && y ≤ 4)

/-- Whether a module of the specimen is dark, the bottom-right corner apart. -/
def isDark (x y : Nat) : Bool :=
  if x = 0 ∨ y = 0 then true
  else if x < 7 ∧ y < 7 then isFinderDark x y
  else if x = 7 ∨ y = 7 then false
  else (x * 31 + y * 17 + x * y) % 7 < 3

/-- The modules of the specimen of side `d`. -/
def grid (d : Nat) : Modules :=
  (List.range d).map fun y => (List.range d).map fun x =>
    isDark x y || (x + 1 == d && y + 1 == d)

/-- The modules that replace those behind the finder pattern in the top row: the separator, then
data. -/
def dataRun : List Bool := [false, true, false, true, true, false]

/-- A row with `dataRun` in columns 7 to 12, longer than before if it was shorter than that. -/
def withDataRun (row : List Bool) : List Bool :=
  (List.range (max row.length 13)).map fun x =>
    if 7 ≤ x ∧ x < 13 then dataRun.getD (x - 7) false else row.getD x false

/-- The modules of the specimen of side `d` with data in its top row. -/
def gridWithDataRow (d : Nat) : Modules :=
  match grid d with
  | [] => []
  | top :: rest => withDataRun top :: rest

/-! ### Arbitrary sides -/

/-- The side that a number stands for; there is no specimen without modules. -/
def side (d : Number) : Except Fault Nat :=
  match d.toNat? with
  | some (n + 1) => .ok (n + 1)
  | _ => .error .missing

/-- The specimen of a given side (`syntheticModules`). -/
def modules (d : Number) : Except Fault Modules := (side d).map grid

/-- The specimen of a given side, with data in its top row (`finderAndDataTopRow`). -/
def modulesWithDataRow (d : Number) : Except Fault Modules := (side d).map gridWithDataRow

end Specimen

end MatrixSymbol
