/-
What a reading tells of a symbol (`QrCodeReader`, section 3.5 of the specification).

A reading is put together from a scanner's sighting of the grid of modules and from the points by
which the symbol was located.

* `Payload.getElem?_reorder`, `Payload.reorder_reorder`: the points of a reflected symbol;
* `Reading.Reports`: a reading tells what a sighting and points say, and nothing else;
  `Reading.reports_iff`: there is one such reading, and it is the one put together;
* `Reader.Located`, `Reader.Reaches`: the grids that an attempt may go by, and the attempts made;
  `Reader.run_attempt_eq_ok_iff`, `Reader.run_decode_eq_ok_iff`: the runs that succeed;
* `Reader.decode_reports`: a reader whose decoder asks a scanner succeeds exactly with the readings
  that report a valid sighting.
-/
import MatrixSymbol.Proofs.Decoding
import MatrixSymbol.Proofs.Fallback
import MatrixSymbol.Proofs.Places

namespace MatrixSymbol

/-! ### Points of a reflected symbol -/

namespace Payload

variable {α : Type} (reflected : Bool) (points : List α)

/-- If the symbol was reflected, and there are three points, the first and the third one change
places. -/
lemma getElem?_reorder (i : ℕ) :
    (reorder reflected points)[i]?
      = points[if reflected = true ∧ 3 ≤ points.length then Equiv.swap 0 2 i else i]? := by
  match points, reflected with
  | [], _ | [_], _ | [_, _], _ => simp [reorder]
  | a :: b :: c :: rest, false => simp [reorder]
  | a :: b :: c :: rest, true =>
    match i with
    | 0 | 1 | 2 => simp [reorder, Equiv.swap_apply_def]
    | i + 3 => simp [reorder, Equiv.swap_apply_def]

/-- Changing places twice puts the points back. -/
lemma reorder_reorder : reorder reflected (reorder reflected points) = points := by
  match points, reflected with
  | [], _ | [_], _ | [_, _], _ => rfl
  | _ :: _ :: _ :: _, false | _ :: _ :: _ :: _, true => rfl

end Payload

/-! ### Reports -/

namespace Reading

/-- A reading reports a sighting of a symbol that was located by points: text and bytes are those of
the sighting; the points are the given ones, of which the first and the third have changed places if
there are three and the symbol was reflected; a level is reported if the sighting names one; a place
in a sequence, with position and parity, if the index is not negative, the count is positive and the
name of the sequence starts with a number; and there are no segments. -/
structure Reports (reading : Reading) (found : Sighting) (points : List Point) : Prop where
  text_eq : reading.text = found.text
  bytes_eq : reading.bytes = found.bytes
  getElem?_points : ∀ i, reading.points[i]?
    = points[if found.isReflected = true ∧ 3 ≤ points.length then Equiv.swap 0 2 i else i]?
  level_eq_some_iff : ∀ level, reading.level = some level ↔ level = found.level ∧ level ≠ ""
  place_isSome_iff : reading.place.isSome = true
    ↔ (0 : Number).le found.index = true ∧ (0 : Number).lt found.size = true
      ∧ Text.StartsWithNumber found.sequence
  place_eq : ∀ place, reading.place = some place →
    place.position = .ofInt (Payload.position found.index found.size)
      ∧ Number.ofIntegerText? found.sequence = some place.parity
  segments_eq : reading.segments = none

variable {reading reading' : Reading} {found : Sighting} {points : List Point}

/-- The reading of a sighting's payload reports it. -/
lemma reports_ofPayload (found : Sighting) (points : List Point) :
    (ofPayload (Payload.ofSighting found) points).Reports found points where
  text_eq := rfl
  bytes_eq := rfl
  getElem?_points := Payload.getElem?_reorder found.isReflected points
  level_eq_some_iff level := by
    show (if found.level.isEmpty then none else some found.level) = some level ↔ _
    by_cases hempty : found.level = ""
    · rw [if_pos (String.isEmpty_iff.mpr hempty)]
      refine ⟨fun h => (by cases h), fun h => absurd (h.1.trans hempty) h.2⟩
    · rw [if_neg (mt String.isEmpty_iff.mp hempty), Option.some.injEq, eq_comm]
      exact ⟨fun h => ⟨h, h ▸ hempty⟩, fun h => h.1⟩
  place_isSome_iff := Payload.placeOf_isSome_iff
  place_eq _ h := Payload.eq_of_placeOf h
  segments_eq := rfl

/-- Two readings that report the same are the same. -/
lemma Reports.unique (h : reading.Reports found points) (h' : reading'.Reports found points) :
    reading = reading' := by
  have hpoints : reading.points = reading'.points :=
    List.ext_getElem? fun i => (h.getElem?_points i).trans (h'.getElem?_points i).symm
  have hlevel : reading.level = reading'.level :=
    Option.ext fun level => (h.level_eq_some_iff level).trans (h'.level_eq_some_iff level).symm
  have hplace : reading.place = reading'.place := by
    have hsome := h.place_isSome_iff.trans h'.place_isSome_iff.symm
    cases hplace : reading.place with
    | none =>
      rw [hplace] at hsome
      exact (Option.not_isSome_iff_eq_none.mp fun h => by cases hsome.mpr h).symm
    | some place =>
      rw [hplace] at hsome
      obtain ⟨place', hplace'⟩ := Option.isSome_iff_exists.mp (hsome.mp rfl)
      obtain ⟨hposition, hparity⟩ := h.place_eq place hplace
      obtain ⟨hposition', hparity'⟩ := h'.place_eq place' hplace'
      rw [hplace', Option.some.injEq, SequencePlace.mk.injEq]
      exact ⟨hposition.trans hposition'.symm, Option.some.inj (hparity.symm.trans hparity')⟩
  obtain ⟨text, bytes, points, segments, level, place⟩ := reading
  obtain ⟨text', bytes', points', segments', level', place'⟩ := reading'
  rw [Reading.mk.injEq]
  exact ⟨h.text_eq.trans h'.text_eq.symm, h.bytes_eq.trans h'.bytes_eq.symm, hpoints,
    h.segments_eq.trans h'.segments_eq.symm, hlevel, hplace⟩

/-- **There is one reading that reports a sighting**, and that is the reading of its payload. -/
lemma reports_iff :
    reading.Reports found points ↔ reading = ofPayload (Payload.ofSighting found) points :=
  ⟨fun h => h.unique (reports_ofPayload found points), fun h => h ▸ reports_ofPayload found points⟩

end Reading

/-! ### Runs that succeed -/

namespace Reader

variable {σ : Type} {r : Reader σ} {image : Bitmap} {options : Record} {s t u : σ} {wanted : Bool}
  {found : Detection} {reading : Reading}

/-- The grids that an attempt may go by, with the points that locate them and the state in which the
collaborators are left: what the detector answers, or, if the reading is pure, the grid straight off
the pixels, without any points. -/
inductive Located (r : Reader σ) (image : Bitmap) (options : Record) (s : σ) :
    Detection → σ → Prop where
  | detected {found : Detection} {u : σ} (hpure : Options.isPure options = false)
      (hdetect : ((r.detector.detect image (.record options)).run s).1 = (.ok (.ok found), u)) :
      Located r image options s found u
  | extracted {bits : Bitmap} (hpure : Options.isPure options = true)
      (hgrid : Extraction.answer image = .ok (.ok bits)) : Located r image options s ⟨bits, []⟩ s

/-- The attempts that are made to read an image as a caller asks, by their options and the state
from which they start: the first one by the resolved options, and after its failure, if the reading
was not to be pure, a pure one. -/
inductive Reaches (r : Reader σ) (image : Bitmap) (caller : Record) (s : σ) (wanted : Bool) :
    Record → σ → Prop where
  | first : Reaches r image caller s wanted (Options.resolve caller) s
  | second {failure : Failure} {u : σ} (hpure : Options.isPure caller = false)
      (hfirst : (Session.run (r.attempt image (Options.resolve caller)) s wanted).1
        = (.ok (.error failure), u)) :
      Reaches r image caller s wanted (Options.asPure (Options.resolve caller)) u

lemma run_located_eq_ok_iff :
    (Session.run (r.located image options) s wanted).1 = (.ok (.ok found), u)
      ↔ Located r image options s found u := by
  cases hpure : Options.isPure options with
  | true =>
    rw [run_located_of_pure hpure]
    constructor
    · intro h
      rcases hgrid : Extraction.answer image with fault | failure | bits <;> rw [hgrid] at h <;>
        cases h
      exact .extracted hpure hgrid
    · rintro (⟨hpure', -⟩ | ⟨-, hgrid⟩)
      · rw [hpure] at hpure'
        cases hpure'
      · rw [hgrid]
        rfl
  | false =>
    rw [run_located_of_not_pure hpure]
    constructor
    · exact .detected hpure
    · rintro (⟨-, hdetect⟩ | ⟨hpure', -⟩)
      · exact hdetect
      · rw [hpure] at hpure'
        cases hpure'

/-- **An attempt succeeds** exactly if there is a grid and the decoder reads it. -/
lemma run_attempt_eq_ok_iff :
    (Session.run (r.attempt image options) s wanted).1 = (.ok (.ok reading), t)
      ↔ ∃ found u payload, Located r image options s found u
        ∧ ((r.decoder.decode found.bits (.record options)).run u).1 = (.ok (.ok payload), t)
        ∧ reading = Reading.ofPayload payload found.points := by
  constructor
  · intro h
    rw [attempt] at h
    obtain ⟨outcome, u, hlocated, h⟩ := Session.run_bind_eq_ok_iff.mp h
    cases outcome with
    | error failure => cases h
    | ok found =>
      obtain ⟨outcome, v, hdecode, h⟩ := Session.run_bind_eq_ok_iff.mp h
      rw [Session.run_call] at hdecode
      cases outcome with
      | error failure => cases h
      | ok payload =>
        rw [Session.run_note_bind] at h
        cases h
        exact ⟨found, u, payload, run_located_eq_ok_iff.mp hlocated, hdecode, rfl⟩
  · rintro ⟨found, u, payload, hlocated, hdecode, rfl⟩
    exact run_attempt_of_grid (run_located_eq_ok_iff.mpr hlocated) hdecode

/-- **The reader succeeds** exactly if one of its attempts does. -/
lemma run_decode_eq_ok_iff {options : Option Value} :
    (Session.run (r.decode image options) s wanted).1 = (.ok (.ok reading), t)
      ↔ ∃ caller fields u, Options.fields (options.getD (.record [])) = .ok caller
        ∧ Reaches r image caller s wanted fields u
        ∧ (Session.run (r.attempt image fields) u wanted).1 = (.ok (.ok reading), t) := by
  cases hcaller : Options.fields (options.getD (.record [])) with
  | error fault =>
    rw [decode, hcaller, Session.run_bind_of_error rfl]
    constructor
    · rintro ⟨⟩
    · rintro ⟨_, _, _, ⟨⟩, _⟩
  | ok caller =>
    have hresolve := Options.isPure_resolve caller
    rw [run_decode_of_fields hcaller]
    constructor
    · intro h
      rcases hfirst : (Session.run (r.attempt image (Options.resolve caller)) s wanted).1
        with ⟨fault | failure | reading', u⟩
      · rw [run_decodeResolved_of_fault hfirst] at h
        cases h
      · cases hpure : Options.isPure caller with
        | true =>
          rw [run_decodeResolved_of_final (hresolve.trans hpure) hfirst] at h
          cases h
        | false =>
          rcases hsecond : (Session.run (r.attempt image
            (Options.asPure (Options.resolve caller))) u wanted).1 with ⟨second, v⟩
          rw [run_decodeResolved_of_second (hresolve.trans hpure) hfirst hsecond] at h
          rcases second with fault | failure' | reading' <;> cases h
          exact ⟨caller, _, u, rfl, .second hpure hfirst, hsecond⟩
      · rw [run_decodeResolved_of_reading hfirst] at h
        cases h
        exact ⟨caller, _, s, rfl, .first, hfirst⟩
    · rintro ⟨caller', fields, u, hcaller', hreaches, hattempt⟩
      obtain rfl := Except.ok.inj hcaller'
      cases hreaches with
      | first => exact run_decodeResolved_of_reading hattempt
      | second hpure hfirst =>
        exact run_decodeResolved_of_second (hresolve.trans hpure) hfirst hattempt

/-- **A reader tells what the scanner has seen.**  Let the decoder ask a scanner.  The reader
succeeds exactly if, in an attempt that it makes, there is a grid, located by the detector or taken
straight off the pixels, on which the first result of the scanner is a valid symbol; its reading is
the one that reports this sighting, with the detector's points, or none without a detector; and the
collaborators are left as the scanner left them.  Putting the points of a reflected symbol in order
twice gives them back.

The reading has points of its own: `Payload.reorder` gives a new list, as `applyMirroredCorrection`
does.  A detector that keeps the list it gave away keeps it in the state `σ`, and that this is left
alone is said by the state alone. -/
theorem decode_reports (detector : Detector σ) (scanner : Scanner σ) (settings : ScannerSettings)
    (image : Bitmap) (options : Option Value) (s t : σ) (wanted : Bool) (reading : Reading) :
    ((Session.run (decode ⟨detector, scanner.decoder settings⟩ image options) s wanted).1
        = (.ok (.ok reading), t)
      ↔ ∃ caller fields s' grid u buffer request found more,
        Options.fields (options.getD (.record [])) = .ok caller
        ∧ Reaches ⟨detector, scanner.decoder settings⟩ image caller s wanted fields s'
        ∧ Located ⟨detector, scanner.decoder settings⟩ image fields s' grid u
        ∧ scanner.Answers settings grid.bits (.record fields) Scanner.decodingRequest u buffer
            request (some found :: more) t
        ∧ found.isValid = true ∧ reading.Reports found grid.points)
    ∧ ∀ (reflected : Bool) (points : List Point),
      Payload.reorder reflected (Payload.reorder reflected points) = points := by
  refine ⟨?_, Payload.reorder_reorder⟩
  simp only [run_decode_eq_ok_iff, run_attempt_eq_ok_iff, Reading.reports_iff]
  constructor
  · rintro ⟨caller, fields, s', hcaller, hreaches, grid, u, payload, hlocated, hdecode, rfl⟩
    obtain ⟨buffer, request, results, hanswers, hverdict⟩ :=
      Scanner.run_decode_eq_ok_iff.mp hdecode
    obtain ⟨found, more, rfl, hvalid, rfl⟩ := Scanner.verdict_eq_ok_iff.mp hverdict.symm
    exact ⟨caller, fields, s', grid, u, buffer, request, found, more, hcaller, hreaches, hlocated,
      hanswers, hvalid, rfl⟩
  · rintro ⟨caller, fields, s', grid, u, buffer, request, found, more, hcaller, hreaches, hlocated,
      hanswers, hvalid, rfl⟩
    have hverdict :
        Scanner.verdict grid.bits (some found :: more) = .ok (Payload.ofSighting found) :=
      Scanner.verdict_eq_ok_iff.mpr ⟨found, more, rfl, hvalid, rfl⟩
    exact ⟨caller, fields, s', hcaller, hreaches, grid, u, Payload.ofSighting found, hlocated,
      Scanner.run_decode_eq_ok_iff.mpr ⟨buffer, request, _, hanswers, hverdict.symm⟩, rfl⟩

/-- A detector that takes any image for a tile located by three points. -/
def tileDetector : Detector Unit where
  detect _ _ := pure (.ok ⟨PixelBuffer.tile, [⟨0, 0⟩, ⟨1, 0⟩, ⟨2, 0⟩]⟩)

/-- A sighting of a reflected symbol, the second one of three. -/
def reflectedSighting : Sighting :=
  { tileSighting with
    text := "hi", bytes := [104, 105], level := "M", isReflected := true, index := 1, size := 3,
    sequence := " 7a" }

/-- Everything that is known of the reflected symbol is told. -/
theorem decode_reports_reflected :
    (Session.run (decode ⟨tileDetector, (Scanner.constant reflectedSighting).decoder .decoding⟩
        PixelBuffer.tile none) () true).1
      = (.ok (.ok ⟨"hi", [104, 105], [⟨2, 0⟩, ⟨1, 0⟩, ⟨0, 0⟩], none, some "M", some ⟨18, 7⟩⟩),
        ()) := by
  have fits : (PixelBuffer.tile.width + 2 * 4) * 4 * ((PixelBuffer.tile.height + 2 * 4) * 4) * 4
      ≤ Bitmap.capacity := by decide
  obtain ⟨buffer, hanswers⟩ := Scanner.answers_constant reflectedSighting (show 0 < 4 by decide) 4
    128 fits (rfl : ((Options.fields (.record (Options.resolve []))).bind fun fields =>
      Options.request fields Scanner.decodingRequest) = .ok _)
  refine (decode_reports tileDetector (Scanner.constant reflectedSighting) .decoding
    PixelBuffer.tile none () () true _).1.mpr ⟨[], Options.resolve [], (), _, (), buffer, _,
      reflectedSighting, [], rfl, .first, .detected rfl rfl, hanswers, rfl,
      Reading.reports_iff.mpr ?_⟩
  decide +kernel

end Reader

end MatrixSymbol
