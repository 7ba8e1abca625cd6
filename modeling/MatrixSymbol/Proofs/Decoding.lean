/-
Decoding by a scanner (`createZXingDecoder`, section 3.6 of the specification).

* `Scanner.verdict`: what a decoder makes of a scanner's results;
* `Scanner.verdict_eq_ok_iff`: it is a payload exactly if the first result is a valid symbol;
* `Scanner.run_decode_eq_ok_iff`: decoding asks the scanner once, and comes to the verdict on its
  answer.
-/
import MatrixSymbol.Proofs.Detection

namespace MatrixSymbol

namespace Scanner

/-- What a decoder makes of a scanner's results on a grid: only the first one counts. -/
def verdict (bits : Bitmap) : List (Option Sighting) → Outcome Payload
  | some found :: _ =>
    if found.isValid then .ok (Payload.ofSighting found) else .error (failureOf found.report)
  | _ => .error (.noStructure bits.width bits.height)

/-- A payload is that of a first result that is valid. -/
lemma verdict_eq_ok_iff {bits : Bitmap} {results : List (Option Sighting)} {payload : Payload} :
    verdict bits results = .ok payload
      ↔ ∃ found more, results = some found :: more ∧ found.isValid = true
        ∧ payload = Payload.ofSighting found := by
  constructor
  · intro h
    match results with
    | [] => cases h
    | none :: more => cases h
    | some found :: more =>
      rw [verdict] at h
      split_ifs at h with hvalid
      exact ⟨found, more, rfl, hvalid, (Except.ok.inj h).symm⟩
  · rintro ⟨found, more, rfl, hvalid, rfl⟩
    rw [verdict, if_pos hvalid]

variable {σ : Type} {scanner : Scanner σ} {settings : ScannerSettings} {bits : Bitmap}
  {options : Value} {s t : σ}

/-- What follows the scanner's answer is the verdict. -/
lemma run_decode_of_answers {buffer : PixelBuffer} {request : Record}
    {results : List (Option Sighting)}
    (h : scanner.Answers settings bits options decodingRequest s buffer request results t) :
    (((scanner.decoder settings).decode bits options).run s).1
      = (.ok (verdict bits results), t) := by
  refine (Call.run_bind_of_ok (run_read_eq_ok_iff.mpr ⟨buffer, request, h⟩)).trans ?_
  match results with
  | [] => rfl
  | none :: more => rfl
  | some found :: more =>
    dsimp only [verdict]
    split_ifs with hvalid
    · rfl
    · exact Call.run_note_bind _ _

/-- **Decoding asks the scanner once**, to expect nothing but the symbol and to report errors, and
comes to the verdict on its answer. -/
theorem run_decode_eq_ok_iff {outcome : Outcome Payload} :
    (((scanner.decoder settings).decode bits options).run s).1 = (.ok outcome, t)
      ↔ ∃ buffer request results,
        scanner.Answers settings bits options decodingRequest s buffer request results t
          ∧ outcome = verdict bits results := by
  constructor
  · intro h
    obtain ⟨results, u, hread, -⟩ := Call.run_bind_eq_ok_iff.mp h
    obtain ⟨buffer, request, hanswers⟩ := run_read_eq_ok_iff.mp hread
    rw [run_decode_of_answers hanswers] at h
    cases h
    exact ⟨buffer, request, results, hanswers, rfl⟩
  · rintro ⟨buffer, request, results, hanswers, rfl⟩
    exact run_decode_of_answers hanswers

end Scanner

end MatrixSymbol
