/-
What can go wrong, by cause (section 1.2 of the specification).

* `Failure`: why an image gives no symbol, or a symbol no text. A failure is an ordinary answer; it
  has a kind and a message.
* `Outcome`: a value or a failure.
* `Fault`: a call that cannot be answered at all, such as a cell outside a bitmap. A fault has a
  name, and a message unless it concerns storage or a missing value.
-/
import MatrixSymbol.Number.Decimal

namespace MatrixSymbol

/-! ### Failures -/

/-- The three kinds of failure (`ReaderErrorKind`): no symbol in the image, a symbol that is not
well formed, and a symbol whose error correction does not add up. -/
inductive FailureKind where
  | notFound
  | format
  | checksum
  deriving DecidableEq, Repr, Inhabited

/-- The name under which a kind is reported. -/
def FailureKind.name : FailureKind → String
  | notFound => "NotFound"
  | format => "Format"
  | checksum => "Checksum"

/-- Why an image gives no symbol, or a symbol no text (`ReaderError`). -/
inductive Failure where
  /-- No pixel of the image is dark. -/
  | blankImage
  /-- The diagonal from the first dark pixel changes colour too few times. -/
  | brokenDiagonal (x y : Number) (transitions required : Nat)
  /-- The bounds of the symbol enclose nothing. -/
  | emptyBounds (left top right bottom : Int)
  /-- A side of the symbol rounds to no modules. -/
  | emptyGrid (width height : Int)
  /-- The last column would be sampled right of the symbol. -/
  | pastRightEdge (excess : Int)
  /-- The last row would be sampled below the symbol. -/
  | pastBottomEdge (excess : Int)
  /-- The scanner located no symbol. -/
  | noSymbol
  /-- The scanner saw no symbol in a grid of modules. -/
  | noStructure (width height : Nat)
  /-- The scanner refused the symbol, for the reason it reports. -/
  | refused (report : String)
  /-- The scanner reports an error correction mismatch. -/
  | mismatch (report : String)
  /-- A collaborator answered a failure of its own. -/
  | reported (kind : FailureKind) (message : String)
  deriving DecidableEq, Repr

namespace Failure

/-- The kind of a failure. -/
def kind : Failure → FailureKind
  | noStructure _ _ | refused _ => .format
  | mismatch _ => .checksum
  | reported k _ => k
  | _ => .notFound

/-- The message of a failure. -/
def message : Failure → String
  | blankImage => "Matrix has no dark pixels"
  | brokenDiagonal x y n required =>
    "Diagonal from (" ++ x.toText ++ ", " ++ y.toText ++ ") crossed " ++ toString n ++ " of "
      ++ toString required ++ " transitions"
  | emptyBounds l t r b =>
    "Degenerate symbol bounds (" ++ toString l ++ ", " ++ toString t ++ ")-(" ++ toString r ++ ", "
      ++ toString b ++ ")"
  | emptyGrid w h => "Module grid of " ++ toString w ++ "x" ++ toString h ++ " is empty"
  | pastRightEdge n => "Last column lands " ++ toString n ++ "px past the right edge"
  | pastBottomEdge n => "Last row lands " ++ toString n ++ "px past the bottom edge"
  | noSymbol => "No QR code found in image"
  | noStructure w h => "No QR code structure in " ++ toString w ++ "x" ++ toString h ++ " grid"
  | refused report => if report.isEmpty then "Unreadable QR code" else report
  | mismatch report => report
  | reported _ message => message

end Failure

/-- A value, or the failure to find one (`Outcome`). -/
abbrev Outcome (α : Type) := Except Failure α

/-! ### Faults -/

/-- A call that cannot be answered. -/
inductive Fault where
  /-- The sides of a bitmap are not positive whole numbers. -/
  | sides (width height : Number)
  /-- A cell is asked for that a bitmap does not have. -/
  | outside (x y : Number) (width height : Nat)
  /-- The rows of a picture differ in length. -/
  | ragged (row count expected : Nat)
  /-- Storage of an impossible size is asked for. -/
  | storage
  /-- Part of a missing or unsuitable value is asked for. -/
  | missing
  /-- A collaborator broke off. -/
  | raised (message : String)
  /-- A failure is raised where a value has to be returned (`ReaderException`). -/
  | failed (failure : Failure)
  deriving DecidableEq, Repr

namespace Fault

/-- The name under which a fault is reported. -/
def name : Fault → String
  | sides _ _ | outside _ _ _ _ | ragged _ _ _ | storage => "RangeError"
  | missing => "TypeError"
  | raised _ => "Error"
  | failed f => f.kind.name ++ "Exception"

/-- The message of a fault, where it has one of its own. -/
def message? : Fault → Option String
  | sides w h =>
    some ("BitMatrix dimensions must be positive integers, got " ++ w.toText ++ "x" ++ h.toText)
  | outside x y w h =>
    some ("(" ++ x.toText ++ ", " ++ y.toText ++ ") is outside a " ++ toString w ++ "x"
      ++ toString h ++ " matrix")
  | ragged y n w =>
    some ("Row " ++ toString y ++ " has " ++ toString n ++ " cells, expected " ++ toString w)
  | storage | missing => none
  | raised message => some message
  | failed f => some f.message

end Fault

end MatrixSymbol
