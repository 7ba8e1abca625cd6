/-
Points of a plane, as a scanner locates them (`GeometryPoint`, section 2 of the specification).
-/
import MatrixSymbol.Record

namespace MatrixSymbol

/-- A point, not necessarily at the middle of a pixel. -/
structure Point where
  x : Number
  y : Number
  deriving DecidableEq, Repr

/-- A point as a record of its coordinates. -/
def Point.toValue (p : Point) : Value := .record [("x", .number p.x), ("y", .number p.y)]

end MatrixSymbol
