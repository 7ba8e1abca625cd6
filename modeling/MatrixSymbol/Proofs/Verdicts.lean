/-
How a decoder sorts the answers of its scanner (`createZXingDecoder`, section 3.6 of the
specification).

* `Scanner.Asked`: what a scanner is asked about a bitmap, whatever it answers;
  `Scanner.exists_asked`: it is asked;
* `Scanner.run_decode_of_fault`: a fault of the scanner is a fault of the decoder;
* `Scanner.Sorted`: an outcome goes by the first of the results, as the contract of decoders has it;
  `Scanner.sorted_verdict`: the verdict does;
* `Scanner.decode_sorts`: a decoder comes to an outcome that goes by the first result alone, or
  passes on the fault of its scanner.
-/
import MatrixSymbol.Proofs.Decoding
import MatrixSymbol.Proofs.Letters
import MatrixSymbol.Proofs.Requests

namespace MatrixSymbol

namespace Scanner

/-! ### Questions -/

/-- What a scanner is asked about a bitmap. -/
structure Asked (settings : ScannerSettings) (b : Bitmap) (options : Value) (overrides : Record)
    (buffer : PixelBuffer) (request : Record) : Prop where
  buffer_eq : PixelBuffer.ofBitmap b settings.scale settings.quiet = .ok buffer
  request_eq : ((Options.fields options).bind fun fields => Options.request fields overrides)
    = .ok request

/-- With natural numbers for the settings a scanner is asked about every bitmap whose rendering can
be stored, by any options whose character set can be looked up. -/
lemma exists_asked {scale : ℕ} (hscale : 0 < scale) (quiet : ℕ) (threshold : Number) {b : Bitmap}
    (fits : (b.width + 2 * quiet) * scale * ((b.height + 2 * quiet) * scale) * 4
      ≤ Bitmap.capacity) {options : Value} {fields : Record}
    (hfields : Options.fields options = .ok fields) {entry : Option CharacterSet.Entry}
    (hentry : Options.characterEntry fields = .ok entry) (overrides : Record) :
    ∃ buffer request,
      Asked ⟨.ofNat scale, .ofNat quiet, threshold⟩ b options overrides buffer request := by
  obtain ⟨buffer, hbuffer, -⟩ := PixelBuffer.shows_squares fits
  have hrendered := PixelBuffer.ofBitmap_eq_squares b quiet hscale
  have hrequest := Options.request_of_found hentry overrides
  exact ⟨buffer, _, hrendered.trans hbuffer, by rw [hfields]; exact hrequest⟩

variable {σ : Type} {scanner : Scanner σ} {settings : ScannerSettings} {bits : Bitmap}
  {options : Value} {overrides : Record} {buffer : PixelBuffer} {request : Record} {s t : σ}

/-- The answer to a question is what reading comes to. -/
lemma Asked.answers (h : Asked settings bits options overrides buffer request)
    {results : List (Option Sighting)}
    (hscan : ((scanner.scan buffer request).run s).1 = (.ok results, t)) :
    scanner.Answers settings bits options overrides s buffer request results t :=
  ⟨h.buffer_eq, h.request_eq, hscan⟩

/-- A fault of the scanner is a fault of reading. -/
lemma Asked.run_read_of_fault (h : Asked settings bits options overrides buffer request)
    {fault : Fault} (hscan : ((scanner.scan buffer request).run s).1 = (.error fault, t)) :
    ((scanner.read settings bits options overrides).run s).1 = (.error fault, t) := by
  have hrequest := h.request_eq
  cases hfields : Options.fields options with
  | error fault =>
    rw [hfields] at hrequest
    cases hrequest
  -- rendering and request succeed, so that reading comes down to the call of the scanner
  | ok fields =>
    rw [hfields] at hrequest
    change Options.request fields overrides = .ok request at hrequest
    rw [read, h.buffer_eq, hfields, Call.run_bind_of_ok (by rw [Call.run_ofExcept]),
      Call.run_bind_of_ok (by rw [Call.run_ofExcept]), hrequest,
      Call.run_bind_of_ok (by rw [Call.run_ofExcept])]
    exact hscan

/-- So it is one of the decoder. -/
lemma Asked.run_decode_of_fault (h : Asked settings bits options decodingRequest buffer request)
    {fault : Fault} (hscan : ((scanner.scan buffer request).run s).1 = (.error fault, t)) :
    (((scanner.decoder settings).decode bits options).run s).1 = (.error fault, t) :=
  Call.run_bind_of_error (h.run_read_of_fault hscan)

/-! ### Sorting -/

/-- An outcome goes by the first of a scanner's results: a payload is that of a valid symbol, an
invalid symbol whose report holds the word `checksum` is an error correction mismatch with this
report for its message, and anything else is not well formed, with a message that is not empty.
Nothing is reported as not found. -/
structure Sorted (first : Option Sighting) (outcome : Outcome Payload) : Prop where
  ok_iff : ∀ payload, outcome = .ok payload
    ↔ ∃ found, first = some found ∧ found.isValid = true ∧ payload = Payload.ofSighting found
  checksum_iff : ∀ message,
    (∃ failure, outcome = .error failure ∧ failure.kind = .checksum ∧ failure.message = message)
      ↔ ∃ found, first = some found ∧ found.isValid = false ∧ found.report = message
        ∧ Text.Holds found.report "checksum"
  format_iff :
    (∃ failure, outcome = .error failure ∧ failure.kind = .format ∧ failure.message ≠ "")
      ↔ ∀ found, first = some found →
        found.isValid = false ∧ ¬ Text.Holds found.report "checksum"
  kind_ne_notFound : ∀ failure, outcome = .error failure → failure.kind ≠ .notFound

namespace Sorted

variable {first : Option Sighting} {found : Sighting} {failure : Failure}

/-- A valid symbol is sorted as its payload. -/
lemma of_isValid (hvalid : found.isValid = true) :
    Sorted (some found) (.ok (Payload.ofSighting found)) := by
  refine ⟨fun payload => ⟨fun h => ⟨found, rfl, hvalid, (Except.ok.inj h).symm⟩, ?_⟩,
    fun message => ⟨?_, ?_⟩, ⟨?_, fun h => ?_⟩, fun failure h => by cases h⟩
  · rintro ⟨found', hfirst, -, rfl⟩
    rw [Option.some.inj hfirst]
  · rintro ⟨failure, h, -⟩
    cases h
  · rintro ⟨found', hfirst, hinvalid, -⟩
    rw [← Option.some.inj hfirst, hvalid] at hinvalid
    cases hinvalid
  · rintro ⟨failure, h, -⟩
    cases h
  · have hinvalid := (h found rfl).1
    rw [hvalid] at hinvalid
    cases hinvalid

/-- An invalid symbol whose report holds the word is sorted as a mismatch with this report. -/
lemma of_holds (hvalid : found.isValid = false) (hholds : Text.Holds found.report "checksum")
    (hkind : failure.kind = .checksum) (hmessage : failure.message = found.report) :
    Sorted (some found) (.error failure) := by
  refine ⟨fun payload => ⟨fun h => (by cases h), ?_⟩, fun message => ⟨?_, ?_⟩,
    ⟨?_, fun h => ?_⟩, ?_⟩
  · rintro ⟨found', hfirst, hvalid', -⟩
    rw [← Option.some.inj hfirst, hvalid] at hvalid'
    cases hvalid'
  · rintro ⟨failure', h, -, rfl⟩
    cases h
    exact ⟨found, rfl, hvalid, hmessage.symm, hholds⟩
  · rintro ⟨found', hfirst, -, rfl, -⟩
    cases hfirst
    exact ⟨failure, rfl, hkind, hmessage⟩
  · rintro ⟨failure', h, hformat, -⟩
    cases h
    cases hkind.symm.trans hformat
  · exact absurd hholds (h found rfl).2
  · intro failure' h hnot
    cases h
    cases hkind.symm.trans hnot

/-- Anything else is sorted as not well formed. -/
lemma of_format (hfirst : ∀ found, first = some found →
      found.isValid = false ∧ ¬ Text.Holds found.report "checksum")
    (hkind : failure.kind = .format) (hmessage : failure.message ≠ "") :
    Sorted first (.error failure) := by
  refine ⟨fun payload => ⟨fun h => (by cases h), ?_⟩, fun message => ⟨?_, ?_⟩,
    ⟨fun _ => hfirst, fun _ => ⟨failure, rfl, hkind, hmessage⟩⟩, ?_⟩
  · rintro ⟨found, hfound, hvalid, -⟩
    rw [(hfirst found hfound).1] at hvalid
    cases hvalid
  · rintro ⟨failure', h, hchecksum, -⟩
    cases h
    cases hkind.symm.trans hchecksum
  · rintro ⟨found, hfound, -, -, hholds⟩
    exact absurd hholds (hfirst found hfound).2
  · intro failure' h hnot
    cases h
    cases hkind.symm.trans hnot

end Sorted

/-- The verdict goes by the first result, if there is one and it is not empty. -/
lemma verdict_eq (bits : Bitmap) (results : List (Option Sighting)) :
    verdict bits results = verdict bits [results.head?.join] := by
  match results with
  | [] => rfl
  | none :: more => rfl
  | some found :: more => rfl

lemma isPlainWord_checksum : Text.IsPlainWord "checksum" := by
  decide +kernel

/-- A report tells a mismatch by the word that it holds. -/
lemma failureOf_cases (report : String) :
    (Text.Holds report "checksum" ∧ failureOf report = .mismatch report)
      ∨ ¬ Text.Holds report "checksum" ∧ failureOf report = .refused report := by
  rw [failureOf, ← Text.mentions_iff isPlainWord_checksum]
  by_cases h : Text.mentions "checksum" report = true
  · exact Or.inl ⟨h, if_pos h⟩
  · exact Or.inr ⟨h, if_neg h⟩

/-- Where there is no symbol, the message names the grid. -/
lemma message_noStructure_ne_empty (width height : ℕ) :
    (Failure.noStructure width height).message ≠ "" := by
  intro h
  change "No QR code structure in " ++ toString width ++ "x" ++ toString height ++ " grid" = "" at h
  rw [String.append_eq_empty_iff] at h
  exact absurd h.2 (by decide)

/-- Where a symbol is refused without a reason, one is given. -/
lemma message_refused_ne_empty (report : String) : (Failure.refused report).message ≠ "" := by
  show (if report.isEmpty then "Unreadable QR code" else report) ≠ ""
  split_ifs with hempty
  · decide
  · exact fun h => hempty (String.isEmpty_iff.mpr h)

/-- **The verdict sorts as the contract says.** -/
theorem sorted_verdict (bits : Bitmap) (first : Option Sighting) :
    Sorted first (verdict bits [first]) := by
  cases first with
  | none =>
    exact Sorted.of_format (fun found h => by cases h) rfl (message_noStructure_ne_empty _ _)
  | some found =>
    rw [verdict]
    split_ifs with hvalid
    · exact Sorted.of_isValid hvalid
    · rw [Bool.not_eq_true] at hvalid
      obtain ⟨hholds, hfailure⟩ | ⟨hholds, hfailure⟩ := failureOf_cases found.report
      · rw [hfailure]
        exact Sorted.of_holds hvalid hholds rfl rfl
      · rw [hfailure]
        refine Sorted.of_format (fun found' h => ?_) rfl (message_refused_ne_empty _)
        cases h
        exact ⟨hvalid, hholds⟩

/-- **A decoder sorts by the first result, and passes on the fault of its scanner.**  For every grid
there is one way to sort the first result that a scanner may give, and it is as the contract says;
whatever is asked about the grid, whatever else the scanner answers and in whatever state, a decoder
comes to that outcome, and a fault of the scanner is its own.  It does ask, with natural numbers for
the settings, if the rendering can be stored and the character set can be looked up. -/
theorem decode_sorts (bits : Bitmap) :
    (∃ sort : Option Sighting → Outcome Payload, (∀ first, Sorted first (sort first))
      ∧ ∀ (settings : ScannerSettings) (options : Value) (buffer : PixelBuffer) (request : Record),
        Asked settings bits options decodingRequest buffer request →
        ∀ (σ : Type) (scanner : Scanner σ) (s t : σ),
          (∀ results, ((scanner.scan buffer request).run s).1 = (.ok results, t) →
            (((scanner.decoder settings).decode bits options).run s).1
              = (.ok (sort results.head?.join), t))
          ∧ ∀ fault, ((scanner.scan buffer request).run s).1 = (.error fault, t) →
            (((scanner.decoder settings).decode bits options).run s).1 = (.error fault, t))
    ∧ ∀ (scale quiet : ℕ) (threshold : Number), 0 < scale →
      (bits.width + 2 * quiet) * scale * ((bits.height + 2 * quiet) * scale) * 4
        ≤ Bitmap.capacity →
      ∀ (options : Value) (fields : Record) (entry : Option CharacterSet.Entry),
        Options.fields options = .ok fields → Options.characterEntry fields = .ok entry →
        ∃ buffer request, Asked ⟨.ofNat scale, .ofNat quiet, threshold⟩ bits options decodingRequest
          buffer request := by
  constructor
  · refine ⟨fun first => verdict bits [first], sorted_verdict bits, ?_⟩
    intro settings options buffer request hasked σ scanner s t
    refine ⟨fun results hscan => ?_, fun fault hscan => hasked.run_decode_of_fault hscan⟩
    rw [run_decode_of_answers (hasked.answers hscan), verdict_eq]
  · intro scale quiet threshold hscale fits options fields entry hfields hentry
    exact exists_asked hscale quiet threshold fits hfields hentry decodingRequest

/-- What a scanner says about a symbol that it could not correct. -/
def spoiledSighting : Sighting :=
  { tileSighting with isValid := false, report := "bad CheckSum at 7" }

/-- A scanner that breaks off. -/
def broken : Scanner Unit where
  scan _ _ := Call.ofExcept (.error (.raised "gone"))

/-- The tile, with a symbol on it that could not be corrected, is an error correction mismatch; and
if the scanner breaks off, so does the decoder. -/
theorem decode_sorts_spoiled :
    ∃ buffer request,
      Asked ⟨4, 4, 128⟩ PixelBuffer.tile (.record []) decodingRequest buffer request
      ∧ (∃ failure, ((((constant spoiledSighting).decoder ⟨4, 4, 128⟩).decode PixelBuffer.tile
            (.record [])).run ()).1 = (.ok (.error failure), ())
          ∧ failure.kind = .checksum ∧ failure.message = "bad CheckSum at 7")
      ∧ (((broken.decoder ⟨4, 4, 128⟩).decode PixelBuffer.tile (.record [])).run ()).1
          = (.error (.raised "gone"), ()) := by
  have fits : (PixelBuffer.tile.width + 2 * 4) * 4 * ((PixelBuffer.tile.height + 2 * 4) * 4) * 4
      ≤ Bitmap.capacity := by decide
  obtain ⟨⟨sort, hsorted, hdecode⟩, hasked⟩ := decode_sorts PixelBuffer.tile
  obtain ⟨buffer, request, h⟩ :=
    hasked 4 4 128 (by decide) fits (.record []) [] none rfl rfl
  have hholds : Text.Holds spoiledSighting.report "checksum" :=
    (Text.mentions_iff isPlainWord_checksum).mp (by decide +kernel)
  obtain ⟨failure, hfailure, hkind, hmessage⟩ := ((hsorted (some spoiledSighting)).checksum_iff
    "bad CheckSum at 7").mpr ⟨spoiledSighting, rfl, rfl, rfl, hholds⟩
  have hanswer := (hdecode _ _ buffer request h Unit (constant spoiledSighting) () ()).1
    [some spoiledSighting] rfl
  have hfault := (hdecode _ _ buffer request h Unit broken () ()).2 (.raised "gone") rfl
  have houtcome : sort (some spoiledSighting) = .error failure := hfailure
  refine ⟨buffer, request, h, ⟨failure, hanswer.trans ?_, hkind, hmessage⟩, hfault⟩
  exact congrArg (fun outcome => (Except.ok outcome, ())) houtcome

end Scanner

end MatrixSymbol
