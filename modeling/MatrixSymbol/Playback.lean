/-
Collaborators that play back prepared answers, and a record of the calls made, as in the tests of
section 1.4 of the specification.

* `Made`: a call as it was made. `Detector.recorded`, `Decoder.recorded` and `Scanner.recorded` add
  each call to a record, and change nothing else.
* `Script`: answers in order; when all are used the last one is repeated.
* `Script.detector`, `Script.decoder`, `Script.scanner`: collaborators that play a script.
-/
import MatrixSymbol.Collaborator

namespace MatrixSymbol

/-! ### Records of calls -/

/-- A call of a collaborator, as it was made. -/
inductive Made where
  | detect (image : Bitmap) (options : Value)
  | decode (bits : Bitmap) (options : Value)
  | scan (image : PixelBuffer) (request : Record)

/-- The state of collaborators beside the calls made of them. -/
structure Recorded (σ : Type) where
  state : σ
  calls : List Made

variable {σ : Type}

/-- A call that is recorded. -/
def Call.recorded {α : Type} (made : Made) (m : Call σ α) : Call (Recorded σ) α :=
  ExceptT.mk fun s => do
    let (answer, state) ← StateT.run (ExceptT.run m) s.state
    return (answer, ⟨state, s.calls ++ [made]⟩)

/-- Recording a call adds it to the record and changes nothing else. -/
theorem Call.run_recorded {α : Type} (made : Made) (m : Call σ α) (s : Recorded σ) :
    (Call.recorded made m).run s
      = (((m.run s.state).1.1, ⟨(m.run s.state).1.2, s.calls ++ [made]⟩), (m.run s.state).2) := by
  show ((_, _), (m.run s.state).2 ++ []) = _
  rw [List.append_nil]; rfl

/-- A detector whose calls are recorded. -/
def Detector.recorded (d : Detector σ) : Detector (Recorded σ) where
  detect image options := (d.detect image options).recorded (.detect image options)

/-- A decoder whose calls are recorded. -/
def Decoder.recorded (d : Decoder σ) : Decoder (Recorded σ) where
  decode bits options := (d.decode bits options).recorded (.decode bits options)

/-- A scanner whose calls are recorded. -/
def Scanner.recorded (s : Scanner σ) : Scanner (Recorded σ) where
  scan image request := (s.scan image request).recorded (.scan image request)

/-! ### Scripts -/

/-- Prepared answers, each an answer proper or a fault. -/
abbrev Script (α : Type) : Type := List (Except Fault α)

/-- Which of the two collaborators plays a script. -/
inductive Role where
  | detector
  | decoder
  deriving DecidableEq, Repr

/-- How many answers each collaborator has given. -/
structure Turns where
  detector : Nat := 0
  decoder : Nat := 0
  deriving DecidableEq, Repr

namespace Turns

/-- How many answers a collaborator has given. -/
def of (t : Turns) : Role → Nat
  | .detector => t.detector
  | .decoder => t.decoder

/-- One more answer of a collaborator. -/
def advance (t : Turns) : Role → Turns
  | .detector => { t with detector := t.detector + 1 }
  | .decoder => { t with decoder := t.decoder + 1 }

end Turns

namespace Script

variable {α : Type}

/-- The answer to a call, counted from zero: the last one once all are used. A script without
answers breaks off. -/
def answer (script : Script α) (turn : Nat) : Except Fault α :=
  (script[min turn (script.length - 1)]?).getD (.error .missing)

/-- Gives the next answer of a script. -/
def play (script : Script α) (role : Role) : Call Turns α :=
  ExceptT.mk fun t => pure (script.answer (t.of role), t.advance role)

/-- A detector that plays a script. -/
def detector (script : Script (Outcome Detection)) : Detector Turns where
  detect _ _ := script.play .detector

/-- A decoder that plays a script. -/
def decoder (script : Script (Outcome Payload)) : Decoder Turns where
  decode _ _ := script.play .decoder

/-- A scanner that plays a script on behalf of a collaborator. -/
def scanner (script : Script (List (Option Sighting))) (role : Role) : Scanner Turns where
  scan _ _ := script.play role

end Script

end MatrixSymbol
