/-
The collaborators of the reader (sections 3.5 and 3.6 of the specification).

A detector finds a symbol in an image and gives its grid of modules; a decoder turns a grid into a
payload. Both may keep a state of their own, and may break off with a fault, in which case their
state survives. They make notes, and whether these are kept is decided where they are called; for
collaborators that look for themselves whether notes are wanted there is one for each case. A
scanner is an external program that reads images; a detector and a decoder can be built from one.

* `Call`: a call of a collaborator with state `σ`.
* `Detector`, `Decoder`, `Scanner`.
* `Scanner.detector`: renders the image for the scanner and maps its answer back to the image.
* `Scanner.decoder`: renders the grid for the scanner and sorts its answer into a payload or a
  failure.
-/
import MatrixSymbol.Options
import MatrixSymbol.Payload
import MatrixSymbol.PixelBuffer
import MatrixSymbol.Text.Search
import MatrixSymbol.Trace

namespace MatrixSymbol

/-! ### Calls -/

/-- A call of a collaborator with state `σ`. -/
abbrev Call (σ α : Type) : Type := ExceptT Fault (StateT σ Noted) α

namespace Call

variable {σ α : Type}

/-- The answer, the state afterwards and the notes of a call. -/
def run (m : Call σ α) (s : σ) : (Except Fault α × σ) × List Note :=
  StateT.run (ExceptT.run m) s

/-- An answer or a fault that leaves the state alone. -/
def ofExcept (answer : Except Fault α) : Call σ α := ExceptT.mk (pure answer)

/-- Makes a note. -/
def note (n : Note) : Call σ Unit := ExceptT.lift (StateT.lift (Noted.note n))

/-- An answer alone leaves the state alone. -/
@[simp] theorem run_pure (a : α) (s : σ) : Call.run (pure a) s = ((.ok a, s), []) := rfl

/-- An answer or a fault alone leaves the state alone. -/
@[simp] theorem run_ofExcept (answer : Except Fault α) (s : σ) :
    Call.run (ofExcept answer) s = ((answer, s), []) := rfl

/-- A note leaves the state alone. -/
@[simp] theorem run_note (n : Note) (s : σ) : Call.run (note n) s = ((.ok (), s), [n]) := rfl

end Call

/-! ### Collaborators -/

/-- A symbol that was found in an image (`DetectorResult`): its modules, and the points that locate
it. -/
structure Detection where
  bits : Bitmap
  points : List Point
  deriving DecidableEq

/-- Finds a symbol in an image (`Detector`). -/
structure Detector (σ : Type) where
  detect (image : Bitmap) (options : Value) : Call σ (Outcome Detection)

/-- Turns a grid of modules into a payload (`PayloadDecoder`). -/
structure Decoder (σ : Type) where
  decode (bits : Bitmap) (options : Value) : Call σ (Outcome Payload)

/-- Reads an image (`ZXingReadFn`). There is one entry for each symbol it saw, and some may be
empty. -/
structure Scanner (σ : Type) where
  scan (image : PixelBuffer) (request : Record) : Call σ (List (Option Sighting))

/-! ### Collaborators built from a scanner -/

/-- How a bitmap is rendered for a scanner, and from which light value on a module it reports is
light. -/
structure ScannerSettings where
  scale : Number
  quiet : Number
  threshold : Number
  deriving DecidableEq, Repr

/-- A detector shows the scanner the image as it is (`DEFAULT_DETECTOR_OPTIONS`). -/
def ScannerSettings.detection : ScannerSettings := ⟨1, 0, 128⟩

/-- A decoder shows the scanner an enlarged grid inside a margin (`DEFAULT_DECODER_OPTIONS`). -/
def ScannerSettings.decoding : ScannerSettings := ⟨4, 4, 128⟩

namespace Scanner

variable {σ : Type}

/-- Renders a bitmap, and asks the scanner to read it as the options say. Of two faults that of the
rendering comes first. -/
def read (scanner : Scanner σ) (settings : ScannerSettings) (b : Bitmap) (options : Value)
    (overrides : Record) : Call σ (List (Option Sighting)) := do
  let image ← Call.ofExcept (PixelBuffer.ofBitmap b settings.scale settings.quiet)
  let fields ← Call.ofExcept (Options.fields options)
  let request ← Call.ofExcept (Options.request fields overrides)
  scanner.scan image request

/-- The symbol that the first of a scanner's results shows, if it has any modules. -/
def sighted? (results : List (Option Sighting)) : Option (Sighting × Luma) :=
  match results with
  | some found :: _ =>
    match found.symbol with
    | some symbol => if symbol.isEmpty then none else some (found, symbol)
    | none => none
  | _ => none

/-- The detector that asks a scanner (`createZXingDetector`). -/
def detector (scanner : Scanner σ) (settings : ScannerSettings) : Detector σ where
  detect image options := do
    let results ← scanner.read settings image options []
    match sighted? results with
    | none =>
      Call.note (.notSighted results.length)
      return .error .noSymbol
    | some (found, symbol) =>
      let points := found.corners.toBitmap settings.scale settings.quiet
      Call.note (.sighted symbol.width symbol.height points)
      let bits ← Call.ofExcept (symbol.toBitmap settings.threshold)
      return .ok ⟨bits, points⟩

/-- What a decoder asks of a scanner: to expect nothing but the symbol, and to report errors. -/
def decodingRequest : Record := [("isPure", .bool true), ("returnErrors", .bool true)]

/-- The failure that a scanner's report on an invalid symbol stands for. -/
def failureOf (report : String) : Failure :=
  if Text.mentions "checksum" report then .mismatch report else .refused report

/-- The decoder that asks a scanner (`createZXingDecoder`). -/
def decoder (scanner : Scanner σ) (settings : ScannerSettings) : Decoder σ where
  decode bits options := do
    match ← scanner.read settings bits options decodingRequest with
    | some found :: _ =>
      if found.isValid then return .ok (Payload.ofSighting found)
      else
        Call.note (.invalid found.report)
        return .error (failureOf found.report)
    | _ => return .error (.noStructure bits.width bits.height)

end Scanner

end MatrixSymbol
