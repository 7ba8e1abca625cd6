/-
Scans: walking across a bitmap and counting changes of colour (`scanTransitions`, section 3.1 of the
specification).

A scan starts at a pixel that is taken to be dark, moves by one fixed step at a time, and ends at
the pixel where the wanted number of changes is reached, or where it leaves the bitmap.

* `Ray`: the colours met from a start in a direction, up to the edge. `Ray.cast` follows a ray
  through whole positions, `Ray.castNumbers` through arbitrary numbers, where a position between
  pixels is a fault.
* `Scan.count`: the scan that reads a list of colours. A limit of zero is never reached.
* `Scan.along`: the scan of a bitmap. On whole numbers it counts along `Ray.cast`:
  `Scan.along_ofInt`.
-/
import MatrixSymbol.Bitmap.Basic

namespace MatrixSymbol

/-! ### Rays -/

/-- A step across a bitmap (`Direction`). -/
structure Direction where
  dx : Number
  dy : Number
  deriving DecidableEq, Repr

namespace Direction

/-- One pixel right and one down. -/
def diagonal : Direction := ⟨1, 1⟩

/-- One pixel right. -/
def horizontal : Direction := ⟨1, 0⟩

/-- One pixel down. -/
def vertical : Direction := ⟨0, 1⟩

end Direction

/-- The colours that a walk meets before it leaves the bitmap, and the fault that stops it early if
there is one. -/
structure Ray where
  colours : List Bool
  fault? : Option Fault := none

namespace Ray

/-- A position is inside a bitmap. -/
def inside (b : Bitmap) (x y : Int) : Bool :=
  0 ≤ x && 0 ≤ y && x < b.width && y < b.height

/-- The colours met from a whole position in whole steps, at most `fuel` of them. -/
def walk (b : Bitmap) (dx dy : Int) : Nat → Int → Int → List Bool
  | 0, _, _ => []
  | fuel + 1, x, y =>
    if inside b x y then b.isOn x.toNat y.toNat :: walk b dx dy fuel (x + dx) (y + dy) else []

/-- The ray from a whole position in whole steps. A walk that moves at all leaves the bitmap after
no more steps than its longer side. -/
def cast (b : Bitmap) (x y dx dy : Int) : Ray where
  colours := walk b dx dy (max b.width b.height) x y

/-- A pair of numbers is inside a bitmap, whether or not it is a pixel (`inside`). -/
def insideNumbers (b : Bitmap) (x y : Number) : Bool :=
  (0 : Number).le x && (0 : Number).le y && x.lt (.ofNat b.width) && y.lt (.ofNat b.height)

/-- The ray from a pair of numbers, at most `fuel` pixels long. -/
def castNumbers (b : Bitmap) (d : Direction) : Nat → Number → Number → Ray
  | 0, _, _ => ⟨[], none⟩
  | fuel + 1, x, y =>
    if insideNumbers b x y then
      match b.get x y with
      | .ok colour =>
        let rest := castNumbers b d fuel (x + d.dx) (y + d.dy)
        ⟨colour :: rest.colours, rest.fault?⟩
      | .error fault => ⟨[], some fault⟩
    else ⟨[], none⟩

end Ray

/-! ### Scans -/

/-- What a scan finds (`TransitionScan`): the changes of colour, the steps taken, and whether it ran
off the bitmap. -/
structure Scan where
  transitions : Nat
  distance : Nat
  reachedEdge : Bool
  deriving DecidableEq, Repr

namespace Scan

/-- Reads colours in order, from a count of changes and steps and the colour last seen, until the
count of changes is `limit` or the colours end. -/
def countFrom (limit : Nat) (colour : Bool) (transitions distance : Nat) : List Bool → Scan
  | [] => ⟨transitions, distance, true⟩
  | c :: rest =>
    if c = colour then countFrom limit colour transitions (distance + 1) rest
    else if transitions + 1 = limit then ⟨transitions + 1, distance, false⟩
    else countFrom limit c (transitions + 1) (distance + 1) rest

/-- The scan that reads the given colours. What comes before them is taken to be dark. -/
def count (limit : Nat) (colours : List Bool) : Scan := countFrom limit true 0 0 colours

/-- The scan of a ray. A fault counts only if the scan gets that far. -/
def ofRay (limit : Nat) (ray : Ray) : Except Fault Scan :=
  let scan := count limit ray.colours
  match ray.fault? with
  | none => .ok scan
  | some fault => if scan.reachedEdge then .error fault else .ok scan

/-- The number of changes that a limit stands for; one that no count can be equal to stands for
zero, which is never reached. -/
def limitOf (limit : Number) : Nat := limit.toNat?.getD 0

/-- The scan of a bitmap from a start in a direction (`scanTransitions`). -/
def along (b : Bitmap) (x y : Number) (d : Direction) (limit : Number) : Except Fault Scan :=
  match x.toInt?, y.toInt?, d.dx.toInt?, d.dy.toInt? with
  | some i, some j, some di, some dj => ofRay (limitOf limit) (Ray.cast b i j di dj)
  | _, _, _, _ =>
    ofRay (limitOf limit) (Ray.castNumbers b d (max b.width b.height + 1) x y)

/-- On whole numbers a scan counts along the ray through whole positions, and is never a fault. -/
theorem along_ofInt (b : Bitmap) (x y dx dy : Int) (limit : Nat) :
    along b (.ofInt x) (.ofInt y) ⟨.ofInt dx, .ofInt dy⟩ (.ofNat limit)
      = .ok (count limit (Ray.cast b x y dx dy).colours) := by
  simp [along, limitOf, ofRay, Ray.cast]

end Scan

end MatrixSymbol
