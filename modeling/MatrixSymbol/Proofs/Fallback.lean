/-
The second attempt of a reader, compared with a pure reading that the caller asks for
(`QrCodeReader`, section 3.5 of the specification).

A second attempt is a pure reading on resolved options.  A caller who asks for a pure reading has
these resolved afterwards, so that the fields are the same; a decoder that goes by the grid and the
fields alone then gives the same answer, whatever calls were made before.

* `Decoder.Stateless`: a decoder goes by the grid and the fields of the options alone;
* `Reader.attempt_congr`: two pure readings by options with the same fields come to the same;
* `Reader.run_decodeResolved_of_pure`: a pure reading is a single attempt;
* `Reader.decode_or_pure`: nothing that a pure reading reads is lost without asking for one.
-/
import MatrixSymbol.Proofs.Protocol
import MatrixSymbol.Proofs.Recovery

namespace MatrixSymbol

/-- A decoder is stateless if its answer depends on nothing but the grid and the options.  Options
count as the same argument when all their fields agree, whatever the order in which these were
set. -/
def Decoder.Stateless {σ : Type} (d : Decoder σ) : Prop :=
  ∀ (bits : Bitmap) (options options' : Record) (s t : σ), options.Agrees options' →
    ((d.decode bits (.record options)).run s).1.1 = ((d.decode bits (.record options')).run t).1.1

/-- Options with the same fields ask for the same way of reading. -/
lemma Options.isPure_congr {options options' : Record} (h : options.Agrees options') :
    isPure options = isPure options' := by
  rw [isPure, isPure, h "pureBarcode"]

namespace Reader

variable {σ : Type} {r : Reader σ} {image : Bitmap} {options : Record} {s : σ} {wanted : Bool}

/-- Two pure readings by options with the same fields come to the same, from whatever states. -/
lemma attempt_congr (hdecoder : r.decoder.Stateless) {options' : Record} {s' : σ} {wanted' : Bool}
    (hpure : Options.isPure options = true) (hagree : options.Agrees options') :
    (Session.run (r.attempt image options) s wanted).1.1
      = (Session.run (r.attempt image options') s' wanted').1.1 := by
  have hpure' : Options.isPure options' = true := Options.isPure_congr hagree ▸ hpure
  have hlocated : (Session.run (r.located image options) s wanted).1 = _ :=
    run_located_of_pure hpure
  have hlocated' : (Session.run (r.located image options') s' wanted').1 = _ :=
    run_located_of_pure hpure'
  rcases hgrid : Extraction.answer image with fault | failure | bits
  · rw [hgrid] at hlocated hlocated'
    rw [run_attempt_of_fault hlocated, run_attempt_of_fault hlocated']
  · rw [hgrid] at hlocated hlocated'
    rw [run_attempt_of_failure hlocated, run_attempt_of_failure hlocated']
  · rw [hgrid] at hlocated hlocated'
    rw [run_attempt_of_grid hlocated rfl, run_attempt_of_grid hlocated' rfl]
    exact congrArg (readings []) (hdecoder bits options options' s s' hagree)

/-- A pure reading is a single attempt. -/
lemma run_decodeResolved_of_pure (hpure : Options.isPure options = true) :
    (Session.run (r.decodeResolved image options) s wanted).1
      = (Session.run (r.attempt image options) s wanted).1 := by
  rcases h : (Session.run (r.attempt image options) s wanted).1 with ⟨fault | failure | reading, t⟩
  · exact run_decodeResolved_of_fault h
  · exact run_decodeResolved_of_final hpure h
  · exact run_decodeResolved_of_reading h

/-- With options that have fields, the reader works on these fields, resolved. -/
lemma run_decode_of_fields {options : Option Value} {fields : Record}
    (hfields : Options.fields (options.getD (.record [])) = .ok fields) :
    (Session.run (r.decode image options) s wanted).1
      = (Session.run (r.decodeResolved image (Options.resolve fields)) s wanted).1 := by
  rw [decode, hfields, Session.run_bind_of_ok rfl]

lemma run_decode_record (fields : Record) :
    (Session.run (r.decode image (some (.record fields))) s wanted).1
      = (Session.run (r.decodeResolved image (Options.resolve fields)) s wanted).1 :=
  run_decode_of_fields rfl

/-- After a failed first attempt, the answer is what the failure and a pure reading come to, made
from whatever state. -/
lemma decode_eq_reported (hdecoder : r.decoder.Stateless) {options : Option Value}
    {fields : Record} (hfields : Options.fields (options.getD (.record [])) = .ok fields)
    (hpure : Options.isPure fields = false) {failure : Failure}
    (hfirst : (Session.run (r.attempt image (Options.resolve fields)) s wanted).1.1
      = .ok (.error failure)) (t : σ) (wanted' : Bool) :
    (Session.run (r.decode image options) s wanted).1.1
      = reported failure (Session.run (r.decode image (some (.record (Options.asPure fields)))) t
          wanted').1.1 := by
  have hasked : Options.isPure (Options.resolve (Options.asPure fields)) = true := by
    rw [Options.isPure_resolve, Options.isPure_asPure]
  rcases hrun : (Session.run (r.attempt image (Options.resolve fields)) s wanted).1
    with ⟨answer, u⟩
  rw [hrun] at hfirst
  obtain rfl : answer = .ok (.error failure) := hfirst
  rw [run_decode_of_fields hfields, run_decode_record, run_decodeResolved_of_pure hasked,
    run_decodeResolved_of_second ((Options.isPure_resolve fields).trans hpure) hrun rfl]
  exact congrArg (reported failure)
    (attempt_congr hdecoder (Options.isPure_asPure _) (Options.asPure_resolve_agrees fields))

/-- **Nothing that a pure reading reads is lost without asking for one.**  Let the decoder be
stateless, let the options not ask for a pure reading, and let the first attempt not end in a fault.
If a pure reading succeeds, so does the reader, with the same reading if its first attempt failed;
and if the reader fails, then with the failure of its first attempt, and a pure reading does not
succeed either. -/
theorem decode_or_pure (hdecoder : r.decoder.Stateless) (image : Bitmap) {options : Option Value}
    {fields : Record} (hfields : Options.fields (options.getD (.record [])) = .ok fields)
    (hpure : Options.isPure fields = false) (s t : σ) (wanted wanted' : Bool)
    {first : Outcome Reading}
    (hfirst : (Session.run (r.attempt image (Options.resolve fields)) s wanted).1.1 = .ok first) :
    (∀ reading, (Session.run (r.decode image (some (.record (Options.asPure fields)))) t
        wanted').1.1 = .ok (.ok reading) →
      ∃ reading', (Session.run (r.decode image options) s wanted).1.1 = .ok (.ok reading')
        ∧ ∀ failure, first = .error failure → reading' = reading)
    ∧ ∀ failure, (Session.run (r.decode image options) s wanted).1.1 = .ok (.error failure) →
      first = .error failure
        ∧ ((∃ failure', (Session.run (r.decode image (some (.record (Options.asPure fields)))) t
              wanted').1.1 = .ok (.error failure'))
          ∨ ∃ fault, (Session.run (r.decode image (some (.record (Options.asPure fields)))) t
              wanted').1.1 = .error fault) := by
  cases first with
  | ok reading =>
    rcases hrun : (Session.run (r.attempt image (Options.resolve fields)) s wanted).1
      with ⟨answer, u⟩
    rw [hrun] at hfirst
    obtain rfl : answer = .ok (.ok reading) := hfirst
    have hdecode : (Session.run (r.decode image options) s wanted).1.1 = .ok (.ok reading) := by
      rw [run_decode_of_fields hfields, run_decodeResolved_of_reading hrun]
    constructor
    · intro reading' _
      exact ⟨reading, hdecode, fun failure h => by cases h⟩
    · intro failure h
      rw [hdecode] at h
      cases h
  | error failure =>
    have hdecode := decode_eq_reported hdecoder hfields hpure hfirst t wanted'
    rcases hasked : (Session.run (r.decode image (some (.record (Options.asPure fields)))) t
      wanted').1.1 with fault | failure' | reading <;> rw [hasked] at hdecode
    · constructor
      · intro reading h
        cases h
      · intro failure' h
        rw [hdecode] at h
        cases h
        exact ⟨rfl, Or.inr ⟨fault, rfl⟩⟩
    · constructor
      · intro reading h
        cases h
      · intro failure'' h
        rw [hdecode] at h
        cases h
        exact ⟨rfl, Or.inl ⟨failure', rfl⟩⟩
    · constructor
      · intro reading' h
        cases h
        exact ⟨reading, hdecode, fun _ _ => rfl⟩
      · intro failure' h
        rw [hdecode] at h
        cases h

/-- A reader whose detector finds nothing, and whose decoder reads whatever it is given. -/
def blind : Reader Unit where
  detector := ⟨fun _ _ => pure (.error .noSymbol)⟩
  decoder := ⟨fun _ _ => pure (.ok { text := "read", bytes := [] })⟩

/-- The specimen of nine modules a side, drawn with one pixel for each, is read without asking for a
pure reading, although the detector does not find it. -/
theorem decode_or_pure_blind :
    blind.decoder.Stateless ∧ Options.isPure [] = false
    ∧ ∃ image, Drawing.render (Specimen.grid 9) (.ofNat 1) (.ofNat 0) = .ok image
      ∧ (Session.run (blind.attempt image (Options.resolve [])) () true).1.1
        = .ok (.error .noSymbol)
      ∧ (Session.run (blind.decode image (some (.record (Options.asPure [])))) () true).1.1
        = .ok (.ok (Reading.ofPayload { text := "read", bytes := [] } []))
      ∧ (Session.run (blind.decode image none) () true).1.1
        = .ok (.ok (Reading.ofPayload { text := "read", bytes := [] } [])) := by
  have hstateless : blind.decoder.Stateless := fun _ _ _ _ _ _ => rfl
  have hanchored := Specimen.anchored_grid (d := 9) (by decide)
  have hfits : Drawing.side (Specimen.grid 9).columns 1 0
      * Drawing.side (List.length (Specimen.grid 9)) 1 0 ≤ Bitmap.capacity := by decide
  obtain ⟨image, hrender, hdrawn⟩ := Drawing.render_eq (by decide) (by decide) hfits
  obtain ⟨grid, hgrid, -⟩ := Extraction.run_extract_of_drawn isRounding_nearest hdrawn hanchored
    (Or.inl rfl) false
  have hfirst : (Session.run (blind.attempt image (Options.resolve [])) () true).1.1
      = .ok (.error .noSymbol) := rfl
  have hpure : (Session.run (blind.decode image (some (.record (Options.asPure [])))) () true).1.1
      = .ok (.ok (Reading.ofPayload { text := "read", bytes := [] } [])) := by
    have hlocated : (Session.run (blind.located image (Options.resolve (Options.asPure []))) ()
        true).1 = (.ok (.ok ⟨grid, []⟩), ()) := by
      rw [run_located_of_pure rfl, Extraction.answer, hgrid]
      rfl
    rw [run_decode_record, run_decodeResolved_of_pure rfl, run_attempt_of_grid hlocated rfl]
    rfl
  have hfields : Options.fields ((none : Option Value).getD (.record [])) = .ok [] := rfl
  obtain ⟨reading, hdecode, hsame⟩ :=
    (decode_or_pure hstateless image hfields rfl () () true true hfirst).1 _ hpure
  rw [hsame _ rfl] at hdecode
  exact ⟨hstateless, rfl, image, hrender, hfirst, hpure, hdecode⟩

end Reader

end MatrixSymbol
