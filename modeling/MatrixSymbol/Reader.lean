/-
The reader: finds a symbol in an image and tells what it says (`QrCodeReader`, section 3.5 of the
specification).

* `Reading`: what was read. `Reading.ofPayload` joins a payload and the points that locate it.
* `Session`: the work of a reader whose collaborators share a state. `Session.run_bind`,
  `Session.run_call`, `Session.run_settled`: what its steps do to answer, state and notes.
* `Reader.attempt`: one attempt, either with the detector or straight off the pixels.
* `Reader.decode`: when the first attempt fails and was made with the detector, a second one is made
  straight off the pixels. Its success counts; otherwise the answer is the failure of the first.
* `Reader.decodeOrRaise`: a failure is raised instead of returned.

Arithmetic is rounded to binary64 throughout.
-/
import MatrixSymbol.Collaborator
import MatrixSymbol.Extraction

namespace MatrixSymbol

/-! ### Readings -/

/-- What was read (`DecodeResult`): the text and bytes of a symbol, the points that locate it, and
what else is known. -/
structure Reading where
  text : String
  bytes : List UInt8
  points : List Point
  segments : Option (List (List UInt8))
  level : Option String
  place : Option SequencePlace
  deriving DecidableEq, Repr

/-- The name of the kind of symbol that is read. -/
def Reading.format : String := "QRCode"

/-- The reading of a payload, located by points. Points of a reflected symbol are put in order. -/
def Reading.ofPayload (p : Payload) (points : List Point) : Reading where
  text := p.text
  bytes := p.bytes
  points := match p.reflected with
    | some reflected => Payload.reorder reflected points
    | none => points
  segments := p.segments
  level := p.level
  place := p.place

/-! ### Sessions -/

/-- The work of a reader whose collaborators share the state `σ`. -/
abbrev Session (σ α : Type) : Type := ExceptT Fault (StateT σ Traced) α

namespace Session

variable {σ α : Type}

/-- The answer, the state of the collaborators afterwards and the notes. -/
def run (m : Session σ α) (s : σ) (wanted : Bool) : (Except Fault α × σ) × List Note :=
  Traced.run (StateT.run (ExceptT.run m) s) wanted

/-- Work without collaborators. -/
def ofAttempt (m : Attempt α) : Session σ α := ExceptT.mk (StateT.lift (ExceptT.run m))

/-- An answer or a fault, without notes. -/
def ofExcept (answer : Except Fault α) : Session σ α := ofAttempt (Attempt.ofExcept answer)

/-- Makes a note if notes are wanted. -/
def note (n : Note) : Session σ Unit := ofAttempt (Attempt.note n)

/-- Calls a collaborator, and keeps its notes if notes are wanted. -/
def call (m : Call σ α) : Session σ α := ExceptT.mk fun s => Traced.ofNoted (Call.run m s)

/-- Work whose fault is an answer too. -/
def settled (m : Session σ α) : Session σ (Except Fault α) := ExceptT.mk (.ok <$> ExceptT.run m)

/-- An answer alone leaves the state alone. -/
@[simp] theorem run_pure (a : α) (s : σ) (wanted : Bool) :
    Session.run (pure a) s wanted = ((.ok a, s), []) := rfl

/-- Work without collaborators leaves their state alone. -/
@[simp] theorem run_ofAttempt (m : Attempt α) (s : σ) (wanted : Bool) :
    Session.run (ofAttempt m) s wanted = (((m.run wanted).1, s), (m.run wanted).2) := by
  show ((_, s), (m.run wanted).2 ++ []) = _
  rw [List.append_nil]; rfl

/-- A call gives its answer and leaves its state behind, whether or not its notes are kept. -/
@[simp] theorem run_call (m : Call σ α) (s : σ) (wanted : Bool) :
    Session.run (call m) s wanted
      = ((m.run s).1, if wanted then (m.run s).2 else []) := rfl

/-- After an answer comes the second step; a fault ends the work, and the state survives it. -/
theorem run_bind {β : Type} (m : Session σ α) (f : α → Session σ β) (s : σ) (wanted : Bool) :
    Session.run (m >>= f) s wanted = match Session.run m s wanted with
      | ((.ok a, t), notes) =>
        ((Session.run (f a) t wanted).1, notes ++ (Session.run (f a) t wanted).2)
      | ((.error fault, t), notes) => ((.error fault, t), notes) := by
  simp only [run, ExceptT.run_bind, StateT.run_bind, Traced.run_bind]
  rcases (StateT.run (ExceptT.run m) s).run wanted with ⟨⟨fault | a, t⟩, notes⟩ <;> simp

/-- Settled work leaves the same state and notes, and its fault has become an answer. -/
@[simp] theorem run_settled (m : Session σ α) (s : σ) (wanted : Bool) :
    Session.run (settled m) s wanted
      = ((.ok (m.run s wanted).1.1, (m.run s wanted).1.2), (m.run s wanted).2) := by
  show ((_, _), (m.run s wanted).2 ++ []) = _
  rw [List.append_nil]; rfl

end Session

/-! ### The reader -/

/-- A reader keeps one detector and one decoder (`QrCodeReader`). -/
structure Reader (σ : Type) where
  detector : Detector σ
  decoder : Decoder σ

namespace Reader

variable {σ : Type}

/-- The grid of modules straight off the pixels, without points to locate it. -/
def extracted (image : Bitmap) : Session σ (Outcome Detection) := do
  let answer ← Session.ofAttempt (Extraction.extract Binary64.nearest image)
  return answer.map fun bits => ⟨bits, []⟩

/-- The grid of modules and the points that locate it, by the way that the options ask for. -/
def located (r : Reader σ) (image : Bitmap) (options : Record) : Session σ (Outcome Detection) :=
  if Options.isPure options then extracted image
  else Session.call (r.detector.detect image (.record options))

/-- One attempt to read an image (`decodeInternal`). -/
def attempt (r : Reader σ) (image : Bitmap) (options : Record) : Session σ (Outcome Reading) := do
  match ← r.located image options with
  | .error failure => return .error failure
  | .ok found =>
    match ← Session.call (r.decoder.decode found.bits (.record options)) with
    | .error failure => return .error failure
    | .ok payload =>
      let reading := Reading.ofPayload payload found.points
      Session.note (.result (Options.isPure options) reading.text reading.points)
      return .ok reading

/-- Reads an image by resolved options: a first attempt, and if it failed with the detector, a
second one straight off the pixels. A fault of the second attempt is as good as a failure. -/
def decodeResolved (r : Reader σ) (image : Bitmap) (options : Record) :
    Session σ (Outcome Reading) := do
  match ← r.attempt image options with
  | .ok reading => return .ok reading
  | .error first =>
    Session.note (.firstFailed first)
    if Options.isPure options then return .error first
    else match ← Session.settled (r.attempt image (Options.asPure options)) with
      | .ok (.ok reading) => return .ok reading
      | .ok (.error failure) =>
        Session.note (.secondFailed failure)
        return .error first
      | .error fault =>
        Session.note (.secondBroke fault)
        return .error first

/-- Reads an image (`decode`). Without options the reader goes by its defaults. -/
def decode (r : Reader σ) (image : Bitmap) (options : Option Value) :
    Session σ (Outcome Reading) := do
  let fields ← Session.ofExcept (Options.fields (options.getD (.record [])))
  r.decodeResolved image (Options.resolve fields)

/-- Reads an image, and raises the failure to do so (`decodeOrThrow`). -/
def decodeOrRaise (r : Reader σ) (image : Bitmap) (options : Option Value) :
    Session σ Reading := do
  match ← r.decode image options with
  | .ok reading => return reading
  | .error failure => throw (.failed failure)

end Reader

end MatrixSymbol
