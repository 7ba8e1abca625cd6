/-
Detectors built from a scanner (`createZXingDetector`, section 3.6 of the specification).

A detector renders an image for the scanner, and maps the corners that the scanner reports back to
cells of the image.

* `Scanner.Answers`: what a scanner is asked about a bitmap, and what it answers;
  `Scanner.run_read_eq_ok_iff`, `Scanner.Answers.run_read`: reading asks exactly this;
* `Spot`: a point with integer coordinates; `Spot.rendered`: where rendering puts it;
  `Spot.restored`: mapping it back;
* `Luma.Shows`: light values that show a grid; `Luma.Shows.toBitmap_eq`: they are read as it;
* `Scanner.detect_rendered`: detection undoes rendering.
-/
import MatrixSymbol.Playback
import MatrixSymbol.Proofs.Exactness
import MatrixSymbol.Proofs.Renderers
import MatrixSymbol.Proofs.Runs

namespace MatrixSymbol

/-! ### Questions and answers -/

section Answers

variable {σ : Type} {scanner : Scanner σ} {settings : ScannerSettings} {b : Bitmap}
  {options : Value} {overrides : Record} {s t : σ} {buffer : PixelBuffer} {request : Record}
  {results : List (Option Sighting)}

/-- A scanner is asked about the rendering of a bitmap, and answers. -/
structure Scanner.Answers (scanner : Scanner σ) (settings : ScannerSettings) (b : Bitmap)
    (options : Value) (overrides : Record) (s : σ) (buffer : PixelBuffer) (request : Record)
    (results : List (Option Sighting)) (t : σ) : Prop where
  buffer_eq : PixelBuffer.ofBitmap b settings.scale settings.quiet = .ok buffer
  request_eq : ((Options.fields options).bind fun fields => Options.request fields overrides)
    = .ok request
  answer_eq : ((scanner.scan buffer request).run s).1 = (.ok results, t)

/-- **Reading comes to results exactly if the scanner answers them.** -/
theorem Scanner.run_read_eq_ok_iff :
    ((scanner.read settings b options overrides).run s).1 = (.ok results, t)
      ↔ ∃ buffer request,
        scanner.Answers settings b options overrides s buffer request results t := by
  rw [Scanner.read]
  simp only [Call.run_bind_eq_ok_iff, Call.run_ofExcept_eq_ok_iff]
  constructor
  · rintro ⟨buffer, _, ⟨hbuffer, rfl⟩, fields, _, ⟨hfields, rfl⟩, request, _, ⟨hrequest, rfl⟩,
      hscan⟩
    exact ⟨buffer, request, hbuffer, by rw [hfields]; exact hrequest, hscan⟩
  · rintro ⟨buffer, request, hbuffer, hrequest, hscan⟩
    cases hfields : Options.fields options with
    | error fault =>
      rw [hfields] at hrequest
      cases hrequest
    | ok fields =>
      rw [hfields] at hrequest
      exact ⟨buffer, s, ⟨hbuffer, rfl⟩, fields, s, ⟨rfl, rfl⟩, request, s, ⟨hrequest, rfl⟩, hscan⟩

/-- A scanner whose calls are recorded answers the same. -/
lemma Scanner.Answers.recorded
    (h : scanner.Answers settings b options overrides s buffer request results t)
    (calls : List Made) :
    scanner.recorded.Answers settings b options overrides ⟨s, calls⟩ buffer request results
      ⟨t, calls ++ [.scan buffer request]⟩ where
  buffer_eq := h.buffer_eq
  request_eq := h.request_eq
  answer_eq := by
    have hscan := Call.run_recorded (.scan buffer request) (scanner.scan buffer request) ⟨s, calls⟩
    rw [h.answer_eq] at hscan
    exact congrArg Prod.fst hscan

/-- **Reading asks the scanner once**, and gives its answer. -/
theorem Scanner.Answers.run_read
    (h : scanner.Answers settings b options overrides s buffer request results t)
    (calls : List Made) :
    ((scanner.recorded.read settings b options overrides).run ⟨s, calls⟩).1
      = (.ok results, ⟨t, calls ++ [.scan buffer request]⟩) :=
  Scanner.run_read_eq_ok_iff.mpr ⟨buffer, request, h.recorded calls⟩

/-- Results without a symbol, or with an empty one, show nothing. -/
lemma Scanner.sighted?_eq_none
    (h : ∀ found more symbol, results = some found :: more → found.symbol = some symbol →
      symbol.width.le 0 = true ∨ symbol.height.le 0 = true) :
    Scanner.sighted? results = none := by
  match results with
  | [] => rfl
  | none :: more => rfl
  | some found :: more =>
    cases hsymbol : found.symbol with
    | none => simp only [Scanner.sighted?, hsymbol]
    | some symbol =>
      have hempty : symbol.isEmpty = true := by
        rw [Luma.isEmpty, Bool.or_eq_true]
        exact h found more symbol rfl hsymbol
      simp only [Scanner.sighted?, hsymbol, hempty, if_true]

/-- Without a symbol that has modules there is nothing to find. -/
lemma Scanner.run_detect_of_none
    (h : scanner.Answers settings b options [] s buffer request results t)
    (hnone : Scanner.sighted? results = none) (calls : List Made) :
    (((scanner.recorded.detector settings).detect b options).run ⟨s, calls⟩).1
      = (.ok (.error .noSymbol), ⟨t, calls ++ [.scan buffer request]⟩) := by
  refine (Call.run_bind_of_ok (h.run_read calls)).trans ?_
  rw [hnone]
  exact Call.run_note_bind _ _

/-- A symbol is read by its light values, and located by its corners. -/
lemma Scanner.run_detect_of_some
    (h : scanner.Answers settings b options [] s buffer request results t) {found : Sighting}
    {symbol : Luma} (hsome : Scanner.sighted? results = some (found, symbol)) {bits : Bitmap}
    (hbits : symbol.toBitmap settings.threshold = .ok bits) (calls : List Made) :
    (((scanner.recorded.detector settings).detect b options).run ⟨s, calls⟩).1
      = (.ok (.ok ⟨bits, found.corners.toBitmap settings.scale settings.quiet⟩),
        ⟨t, calls ++ [.scan buffer request]⟩) := by
  refine (Call.run_bind_of_ok (h.run_read calls)).trans ?_
  rw [hsome]
  refine (Call.run_note_bind _ _).trans ?_
  rw [hbits, Call.run_bind_of_ok (by rw [Call.run_ofExcept])]
  rfl

end Answers

/-! ### Points -/

/-- A point with integer coordinates. -/
structure Spot where
  x : ℤ
  y : ℤ

namespace Spot

/-- The point by its numbers. -/
def toPoint (p : Spot) : Point := ⟨.ofInt p.x, .ofInt p.y⟩

/-- Where rendering puts a point: its coordinates count cells from inside the margin, and `scale`
pixels a cell. -/
def rendered (p : Spot) (scale quiet : ℕ) : Spot := ⟨(p.x + quiet) * scale, (p.y + quiet) * scale⟩

/-- The coordinates of a point are numbers. -/
structure IsExact (p : Spot) : Prop where
  x : Number.IsExact p.x
  y : Number.IsExact p.y

lemma isExact_of_lt {p : Spot} (h : p.x.natAbs < 2 ^ 53 ∧ p.y.natAbs < 2 ^ 53) : p.IsExact :=
  ⟨Number.isExact_of_lt h.1, Number.isExact_of_lt h.2⟩

/-- **A rendered point is mapped back to where it was.** -/
theorem restored {p : Spot} {scale quiet : ℕ} (hscale : 0 < scale) (hp : p.IsExact)
    (hrendered : (p.rendered scale quiet).IsExact) :
    (⟨(p.rendered scale quiet).toPoint.x / .ofNat scale - .ofNat quiet,
        (p.rendered scale quiet).toPoint.y / .ofNat scale - .ofNat quiet⟩ : Point)
      = p.toPoint := by
  have hx := hrendered.x.of_mul hscale
  have hy := hrendered.y.of_mul hscale
  simp only [rendered, toPoint, Number.ofInt_div_ofNat hscale hx,
    Number.ofInt_div_ofNat hscale hy, Number.ofInt_sub_ofNat quiet hp.x,
    Number.ofInt_sub_ofNat quiet hp.y]

end Spot

/-! ### Light values -/

/-- Light values show a grid: there is a byte for each cell, row by row, and it is below the
threshold where the cell is on. -/
structure Luma.Shows (l : Luma) (threshold : Number) (grid : Bitmap) : Prop where
  width_eq : l.width = .ofNat grid.width
  height_eq : l.height = .ofNat grid.height
  size_data : l.data.size = grid.width * grid.height
  lt_eq : ∀ x < grid.width, ∀ y < grid.height,
    (l.data[y * grid.width + x]?).map (fun value => (Number.ofNat value.toNat).lt threshold)
      = some (grid.isOn x y)

namespace Luma.Shows

variable {l : Luma} {threshold : Number} {grid : Bitmap} (h : l.Shows threshold grid)
include h

/-- **Light values that show a grid are read as it.** -/
theorem toBitmap_eq : l.toBitmap threshold = .ok grid := by
  rw [toBitmap, h.width_eq, h.height_eq, Number.toNat?_ofNat, Option.getD_some,
    Bitmap.draw_ofNat grid.width_pos grid.height_pos, dif_pos grid.size_le]
  refine congrArg Except.ok (Bitmap.ext_isOn rfl rfl fun x y hx hy => ?_)
  have hxw : x < grid.width := hx
  have hyh : y < grid.height := hy
  have hlt := h.lt_eq x hxw y hyh
  rw [Bitmap.isOn_ofFn, decide_eq_true hxw, decide_eq_true hyh, Bool.and_true, Bool.true_and]
  cases hbyte : l.data[y * grid.width + x]? with
  | none =>
    rw [hbyte] at hlt
    cases hlt
  | some value =>
    rw [hbyte] at hlt
    exact Option.some.inj hlt

/-- Such light values are there. -/
lemma isEmpty_eq_false : l.isEmpty = false := by
  have hle : ∀ n : ℕ, 0 < n → (Number.ofNat n).le 0 = false := fun n hn => by
    have hpos : ¬ (n : ℚ) ≤ 0 := not_le.mpr (by exact_mod_cast hn)
    rw [Number.ofNat_eq_finite]
    exact decide_eq_false hpos
  rw [isEmpty, h.width_eq, h.height_eq, hle _ grid.width_pos, hle _ grid.height_pos]
  rfl

end Luma.Shows

/-! ### Detection -/

/-- **Detection undoes rendering.**  A detector asks its scanner once, about the rendering of the
image.  With natural numbers for `scale` and `quiet` this paints the cell in column `x` and row `y`
from the pixel `(x + quiet) * scale`, `(y + quiet) * scale` on; and if the first result shows a grid
by its light values, and its corners are four points of the image mapped in this way, then the
answer is the grid, with the points as they were, in the order of the finder patterns.  With any
settings, if there is no first result, or one without a symbol or with an empty one, the answer is
that nothing was found. -/
theorem Scanner.detect_rendered {σ : Type} (scanner : Scanner σ) (image : Bitmap)
    (options : Value) (s t : σ) (calls : List Made) (buffer : PixelBuffer) (request : Record)
    (results : List (Option Sighting)) :
    (∀ (scale quiet : ℕ) (threshold : Number), 0 < scale →
      scanner.Answers ⟨.ofNat scale, .ofNat quiet, threshold⟩ image options [] s buffer request
        results t →
      (∀ x < image.width, ∀ y < image.height,
        buffer.data[4 * ((y + quiet) * scale * ((image.width + 2 * quiet) * scale)
            + (x + quiet) * scale)]?
          = some (if image.isOn x y then 0 else 255))
      ∧ ∀ (grid : Bitmap) (symbol : Luma) (found : Sighting) (more : List (Option Sighting))
          (topLeft topRight bottomRight bottomLeft : Spot),
        results = some found :: more → found.symbol = some symbol → symbol.Shows threshold grid →
        (∀ p ∈ [topLeft, topRight, bottomRight, bottomLeft],
          p.IsExact ∧ (p.rendered scale quiet).IsExact) →
        found.corners = ⟨(topLeft.rendered scale quiet).toPoint,
          (topRight.rendered scale quiet).toPoint, (bottomRight.rendered scale quiet).toPoint,
          (bottomLeft.rendered scale quiet).toPoint⟩ →
        (((scanner.recorded.detector ⟨.ofNat scale, .ofNat quiet, threshold⟩).detect image
            options).run ⟨s, calls⟩).1
          = (.ok (.ok ⟨grid, [bottomLeft.toPoint, topLeft.toPoint, topRight.toPoint,
              bottomRight.toPoint]⟩), ⟨t, calls ++ [.scan buffer request]⟩))
    ∧ ∀ settings : ScannerSettings,
      scanner.Answers settings image options [] s buffer request results t →
      (∀ found more symbol, results = some found :: more → found.symbol = some symbol →
        symbol.width.le 0 = true ∨ symbol.height.le 0 = true) →
      (((scanner.recorded.detector settings).detect image options).run ⟨s, calls⟩).1
          = (.ok (.error .noSymbol), ⟨t, calls ++ [.scan buffer request]⟩)
        ∧ Failure.noSymbol.kind = .notFound := by
  refine ⟨fun scale quiet threshold hscale h => ⟨?_, ?_⟩, fun settings h hnone => ⟨?_, rfl⟩⟩
  · intro x hx y hy
    exact (PixelBuffer.shows_of_ofBitmap hscale h.buffer_eq).red_eq hx hy hscale hscale
  · rintro grid symbol found more topLeft topRight bottomRight bottomLeft rfl hsymbol hshows hexact
      hcorners
    have hsighted : sighted? (some found :: more) = some (found, symbol) := by
      simp only [sighted?, hsymbol, hshows.isEmpty_eq_false, Bool.false_eq_true, if_false]
    have hpoints : found.corners.toBitmap (.ofNat scale) (.ofNat quiet)
        = [bottomLeft.toPoint, topLeft.toPoint, topRight.toPoint, bottomRight.toPoint] := by
      have hrestored : ∀ p ∈ [topLeft, topRight, bottomRight, bottomLeft], _ := fun p hp =>
        Spot.restored (p := p) hscale (hexact p hp).1 (hexact p hp).2
      simp only [List.forall_mem_cons, List.not_mem_nil] at hrestored
      obtain ⟨htl, htr, hbr, hbl, -⟩ := hrestored
      rw [hcorners, Corners.toBitmap, List.map_cons, List.map_cons, List.map_cons, List.map_cons,
        htl, htr, hbr, hbl]
      rfl
    rw [run_detect_of_some h hsighted hshows.toBitmap_eq, hpoints]
  · exact run_detect_of_none h (sighted?_eq_none hnone) calls

/-- A scanner that answers every question with one result. -/
def Scanner.constant (found : Sighting) : Scanner Unit where
  scan _ _ := pure [some found]

/-- It answers any question that can be asked. -/
lemma Scanner.answers_constant (found : Sighting) {scale : ℕ} (hscale : 0 < scale) (quiet : ℕ)
    (threshold : Number) {image : Bitmap} {options : Value} {overrides request : Record}
    (fits : (image.width + 2 * quiet) * scale * ((image.height + 2 * quiet) * scale) * 4
      ≤ Bitmap.capacity)
    (hrequest : ((Options.fields options).bind fun fields => Options.request fields overrides)
      = .ok request) :
    ∃ buffer, (constant found).Answers ⟨.ofNat scale, .ofNat quiet, threshold⟩ image options
      overrides () buffer request [some found] () := by
  obtain ⟨buffer, hbuffer, -⟩ := PixelBuffer.shows_squares fits
  have hrendered := PixelBuffer.ofBitmap_eq_squares image quiet hscale
  exact ⟨buffer, hrendered.trans hbuffer, hrequest, rfl⟩

/-- What a scanner says about a row of two modules, a dark and a light one, at the corner of an
image with three pixels a cell and a margin of one cell. -/
def tileSighting : Sighting where
  text := ""
  bytes := []
  corners := ⟨⟨3, 3⟩, ⟨9, 3⟩, ⟨9, 6⟩, ⟨3, 6⟩⟩
  isValid := true
  report := ""
  level := ""
  isReflected := false
  index := 0
  size := 0
  sequence := ""
  symbol := some ⟨#[0, 255], 2, 1⟩

/-- The detector finds the tile between the cells it lies in, and nothing if the scanner gives no
modules. -/
theorem Scanner.detect_rendered_tile :
    (∃ buffer request,
      (constant tileSighting).Answers ⟨3, 1, 128⟩ PixelBuffer.tile (.record []) [] () buffer request
        [some tileSighting] ()
      ∧ ((((constant tileSighting).recorded.detector ⟨3, 1, 128⟩).detect PixelBuffer.tile
            (.record [])).run ⟨(), []⟩).1
          = (.ok (.ok ⟨PixelBuffer.tile, [⟨0, 1⟩, ⟨0, 0⟩, ⟨2, 0⟩, ⟨2, 1⟩]⟩),
            ⟨(), [.scan buffer request]⟩))
    ∧ ∃ buffer request,
      ((((constant { tileSighting with symbol := none }).recorded.detector ⟨3, 1, 128⟩).detect
          PixelBuffer.tile (.record [])).run ⟨(), []⟩).1
        = (.ok (.error .noSymbol), ⟨(), [.scan buffer request]⟩) := by
  have fits : (PixelBuffer.tile.width + 2 * 1) * 3 * ((PixelBuffer.tile.height + 2 * 1) * 3) * 4
      ≤ Bitmap.capacity := by decide
  constructor
  · obtain ⟨buffer, h⟩ := answers_constant tileSighting (show 0 < 3 by decide) 1 128 fits
      (rfl : ((Options.fields (.record [])).bind fun fields => Options.request fields []) = .ok _)
    refine ⟨buffer, _, h, ?_⟩
    have hdetect := (detect_rendered (constant tileSighting) PixelBuffer.tile (.record [])
      () () [] buffer _ [some tileSighting]).1 3 1 128 (by decide) h
    have hsmall : ∀ p ∈ ([⟨0, 0⟩, ⟨2, 0⟩, ⟨2, 1⟩, ⟨0, 1⟩] : List Spot),
        (p.x.natAbs < 2 ^ 53 ∧ p.y.natAbs < 2 ^ 53)
          ∧ (p.rendered 3 1).x.natAbs < 2 ^ 53 ∧ (p.rendered 3 1).y.natAbs < 2 ^ 53 := by decide
    exact hdetect.2 PixelBuffer.tile ⟨#[0, 255], 2, 1⟩ tileSighting [] ⟨0, 0⟩ ⟨2, 0⟩ ⟨2, 1⟩ ⟨0, 1⟩
      rfl rfl ⟨rfl, rfl, rfl, by decide +kernel⟩
      (fun p hp => ⟨Spot.isExact_of_lt (hsmall p hp).1, Spot.isExact_of_lt (hsmall p hp).2⟩) rfl
  · obtain ⟨buffer, h⟩ := answers_constant { tileSighting with symbol := none }
      (show 0 < 3 by decide) 1 128 fits
      (rfl : ((Options.fields (.record [])).bind fun fields => Options.request fields []) = .ok _)
    refine ⟨buffer, _, ((detect_rendered _ PixelBuffer.tile (.record []) () () [] buffer _ _).2 _ h
      ?_).1⟩
    rintro found more symbol hresults hsymbol
    cases hresults
    cases hsymbol

end MatrixSymbol
