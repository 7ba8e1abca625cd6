/-
The grid of modules of an upright symbol, read straight off the pixels (`extractPureBits`, section
3.4 of the specification).

* `Extraction.sample`: one vote for each point of a lattice.
* `Extraction.extract`: the lattice of the image, then its votes.
-/
import MatrixSymbol.Lattice
import MatrixSymbol.Vote

namespace MatrixSymbol

namespace Extraction

variable (round : Rat → Rat)

/-- The colour of the module at a point of a lattice: the vote for a module of as many whole pixels
as the pitch has. -/
def colourAt (image : Bitmap) (l : Lattice) (x y : Nat) : Except Fault Bool :=
  Vote.colour image (.ofInt (l.column round x)) (.ofInt (l.row round y)) (.ofInt l.pitch.floor)

/-- The grid of the colours at all points of a lattice. The loops of `extractPureBits` set them one
after the other in a blank grid, which on every measured lattice gives the same
(`Extraction.filled_eq_sample`). -/
def sample (image : Bitmap) (l : Lattice) : Except Fault Bitmap := do
  let rows ← (List.range l.height).mapM fun y =>
    (List.range l.width).mapM fun x => colourAt round image l x y
  Bitmap.ofRows rows

/-- The grid of modules of an image (`extractPureBits`). -/
def extract (image : Bitmap) : Attempt (Outcome Bitmap) := do
  match ← Lattice.measure round image with
  | .error failure => return .error failure
  | .ok lattice =>
    let bits ← Attempt.ofExcept (sample round image lattice)
    Attempt.note (.grid bits)
    return .ok bits

end Extraction

end MatrixSymbol
