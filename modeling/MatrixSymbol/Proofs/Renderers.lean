/-
The two renderers agree (`bitMatrixToImageData`, section 3.6 of the specification,
and `renderModules`).

A bitmap is rendered as a pixel buffer, with a margin counted in cells, and its rows are drawn as
modules, with a margin counted in pixels.

* `Bitmap.isDark_toRows`: the rows of a bitmap as modules;
* `PixelBuffer.isBlack_eq_ink`: both renderers colour the same pixels;
* `PixelBuffer.rgba`: the four bytes of a pixel; `PixelBuffer.getElem?_squares`: every byte of an
  image;
* `PixelBuffer.ofBitmap_agrees`: the image of a bitmap is the drawing of its rows, byte by byte.
-/
import MatrixSymbol.Proofs.Blackening
import MatrixSymbol.Proofs.Painting

namespace MatrixSymbol

/-! ### Rows as modules -/

namespace Bitmap

variable (b : Bitmap)

lemma columns_toRows : Modules.columns b.toRows = b.width := by
  rw [Modules.columns, List.headD_eq_head?_getD, List.head?_eq_getElem?,
    b.getElem?_toRows b.height_pos, Option.getD_some, List.length_map, List.length_range]

/-- The dark modules are the on cells. -/
lemma isDark_toRows (x y : ℕ) : Modules.isDark b.toRows x y = b.isOn x y := b.getD_toRows x y

end Bitmap

namespace PixelBuffer

/-! ### Pixels -/

variable {b : Bitmap} {scale quiet : ℕ}

/-- **Both renderers colour the same pixels**: a margin of `quiet` cells is one of `quiet * scale`
pixels. -/
theorem isBlack_eq_ink (hscale : 0 < scale) (px py : ℕ) :
    isBlack b scale quiet px py
      = Drawing.ink (Modules.columns b.toRows) (Modules.isDark b.toRows) scale (quiet * scale)
          px py := by
  have hleft : decide (quiet ≤ px / scale) = decide (quiet * scale ≤ px) :=
    decide_eq_decide.mpr (Nat.le_div_iff_mul_le hscale)
  have htop : decide (quiet ≤ py / scale) = decide (quiet * scale ≤ py) :=
    decide_eq_decide.mpr (Nat.le_div_iff_mul_le hscale)
  rw [isBlack, Drawing.ink, b.columns_toRows, b.isDark_toRows, hleft, htop,
    Nat.mul_comm quiet scale, Nat.sub_mul_div, Nat.sub_mul_div]
  cases hon : b.isOn (px / scale - quiet) (py / scale - quiet) with
  | false => rw [Bool.and_false, Bool.and_false]
  | true => rw [decide_eq_true (Bitmap.lt_of_isOn hon).1, Bool.and_true, Bool.and_true]

/-- The four bytes of a pixel, by its place in row order. -/
def rgba (data : Array UInt8) (place : ℕ) : List (Option UInt8) :=
  (List.range 4).map fun k => data[4 * place + k]?

/-- An image shows a bitmap: its colour bytes are zero where a pixel is black, and all others are
full. -/
structure Shows (image : PixelBuffer) (b : Bitmap) (scale quiet : ℕ) : Prop where
  width_eq : image.width = .ofNat ((b.width + 2 * quiet) * scale)
  height_eq : image.height = .ofNat ((b.height + 2 * quiet) * scale)
  size_data : image.data.size
    = 4 * ((b.width + 2 * quiet) * scale) * ((b.height + 2 * quiet) * scale)
  getElem?_data : ∀ px < (b.width + 2 * quiet) * scale, ∀ py < (b.height + 2 * quiet) * scale,
    ∀ k < 4, image.data[4 * (py * ((b.width + 2 * quiet) * scale) + px) + k]?
      = some (if k < 3 && isBlack b scale quiet px py then 0 else 255)

/-- **Squares show the bitmap.** -/
theorem shows_squares
    (fits : (b.width + 2 * quiet) * scale * ((b.height + 2 * quiet) * scale) * 4
      ≤ Bitmap.capacity) :
    ∃ image, squares b scale quiet = .ok image ∧ image.Shows b scale quiet := by
  refine ⟨_, if_pos fits, rfl, rfl, ?_, ?_⟩
  · rw [Array.size_ofFn]
    ring
  · intro px hpx py hpy k hk
    have hplace := Bitmap.place_lt hpx hpy
    rw [Array.getElem?_ofFn, dif_pos (by omega)]
    have hbyte : (4 * (py * ((b.width + 2 * quiet) * scale) + px) + k) % 4 = k := by omega
    have hgroup : (4 * (py * ((b.width + 2 * quiet) * scale) + px) + k) / 4
        = py * ((b.width + 2 * quiet) * scale) + px := by omega
    simp only [hbyte, hgroup, Bitmap.place_mod hpx, Bitmap.place_div hpx]

/-- An image at a positive scale consists of squares. -/
lemma ofBitmap_eq_squares (b : Bitmap) (quiet : ℕ) (hscale : 0 < scale) :
    ofBitmap b (.ofNat scale) (.ofNat quiet) = squares b scale quiet := by
  obtain ⟨n, rfl⟩ := Nat.exists_eq_succ_of_ne_zero hscale.ne'
  exact ofBitmap_ofNat b n quiet

/-- So an image that there is shows the bitmap. -/
lemma shows_of_ofBitmap (hscale : 0 < scale) {image : PixelBuffer}
    (h : ofBitmap b (.ofNat scale) (.ofNat quiet) = .ok image) : image.Shows b scale quiet := by
  rw [ofBitmap_eq_squares b quiet hscale] at h
  by_cases fits : (b.width + 2 * quiet) * scale * ((b.height + 2 * quiet) * scale) * 4
      ≤ Bitmap.capacity
  · obtain ⟨image', hsquares, hshows⟩ := shows_squares fits
    obtain rfl := Except.ok.inj (hsquares.symm.trans h)
    exact hshows
  · rw [squares] at h
    cases (if_neg fits).symm.trans h

/-- The loops write these squares. -/
lemma data_of_squares (hscale : 0 < scale)
    (fits : (b.width + 2 * quiet) * scale * ((b.height + 2 * quiet) * scale) * 4
      ≤ Bitmap.capacity) {image : PixelBuffer} (h : squares b scale quiet = .ok image) :
    image.data = (writes b (.ofNat scale) (.ofNat quiet)).foldl blacken
      (Array.replicate image.data.size 255) := by
  obtain rfl := Except.ok.inj ((if_pos fits).symm.trans h)
  rw [Array.size_ofFn]
  exact (foldl_writes fits hscale).symm

/-- The pixels of an image that shows a bitmap. -/
lemma Shows.rgba_eq {image : PixelBuffer} (h : image.Shows b scale quiet) {px py : ℕ}
    (hpx : px < (b.width + 2 * quiet) * scale) (hpy : py < (b.height + 2 * quiet) * scale) :
    rgba image.data (py * ((b.width + 2 * quiet) * scale) + px)
      = if isBlack b scale quiet px py then [some 0, some 0, some 0, some 255]
        else [some 255, some 255, some 255, some 255] := by
  have hbytes : rgba image.data (py * ((b.width + 2 * quiet) * scale) + px)
      = (List.range 4).map fun k =>
          some (if k < 3 && isBlack b scale quiet px py then 0 else 255) :=
    List.map_congr_left fun k hk => h.getElem?_data px hpx py hpy k (List.mem_range.mp hk)
  rw [hbytes]
  cases isBlack b scale quiet px py <;> rfl

/-- The red byte of any pixel of a cell tells whether the cell is on. -/
lemma Shows.red_eq {image : PixelBuffer} (h : image.Shows b scale quiet) {x y i j : ℕ}
    (hx : x < b.width) (hy : y < b.height) (hi : i < scale) (hj : j < scale) :
    image.data[4 * (((y + quiet) * scale + j) * ((b.width + 2 * quiet) * scale)
        + ((x + quiet) * scale + i))]?
      = some (if b.isOn x y then 0 else 255) := by
  have hred := h.getElem?_data _ (pixel_lt quiet hx hi) _ (pixel_lt quiet hy hj) 0 (by norm_num)
  rw [isBlack_pixel b quiet x y hi hj] at hred
  exact hred

end PixelBuffer

/-- The rows of a bitmap are drawn by the loops. -/
lemma Drawing.render_toRows (b : Bitmap) {m : ℕ} (hm : 0 < m) (q : ℕ) :
    render b.toRows (.ofNat m) (.ofNat q) = paint b.toRows (.ofNat m) (.ofNat q) := by
  have hcolumns : 0 < Modules.columns b.toRows := b.columns_toRows ▸ b.width_pos
  obtain ⟨n, rfl⟩ := Nat.exists_eq_succ_of_ne_zero hm.ne'
  rw [paint_eq_squares b.toRows hm, render_ofNat (Modules.isEmpty_eq_false hcolumns)]

namespace PixelBuffer

/-- **The image of a bitmap is the drawing of its rows.**  Cells of `scale` pixels a side inside a
margin of `quiet` cells are modules of that size inside a margin of `quiet * scale` pixels.  If the
bytes can be stored there are both an image and a drawing, and they are what the loops of both
renderers paint.  They have the same sides; there are four bytes a pixel, which are black and opaque
where the drawing is on, and white and opaque elsewhere; the loops write no byte twice, and only
colour bytes of dark pixels of the drawing; and every pixel of a cell has a red byte that tells
whether the cell is on. -/
theorem ofBitmap_agrees (b : Bitmap) (scale quiet : ℕ) (hscale : 0 < scale) :
    if (b.width + 2 * quiet) * scale * ((b.height + 2 * quiet) * scale) * 4 ≤ Bitmap.capacity then
      ∃ image drawing,
        ofBitmap b (.ofNat scale) (.ofNat quiet) = .ok image
        ∧ paint b (.ofNat scale) (.ofNat quiet) = .ok image
        ∧ Drawing.render b.toRows (.ofNat scale) (.ofNat (quiet * scale)) = .ok drawing
        ∧ Drawing.paint b.toRows (.ofNat scale) (.ofNat (quiet * scale)) = .ok drawing
        ∧ image.width = .ofNat drawing.width ∧ image.height = .ofNat drawing.height
        ∧ image.data.size = 4 * drawing.width * drawing.height
        ∧ (∀ px < drawing.width, ∀ py < drawing.height,
          rgba image.data (py * drawing.width + px)
            = if drawing.isOn px py then [some 0, some 0, some 0, some 255]
              else [some 255, some 255, some 255, some 255])
        ∧ image.data = (writes b (.ofNat scale) (.ofNat quiet)).foldl blacken
          (Array.replicate image.data.size 255)
        ∧ (writes b (.ofNat scale) (.ofNat quiet)).Nodup
        ∧ (∀ byte ∈ writes b (.ofNat scale) (.ofNat quiet),
          ∃ px < drawing.width, ∃ py < drawing.height, ∃ k < 3, drawing.isOn px py = true
            ∧ byte = .ofNat (4 * (py * drawing.width + px) + k))
        ∧ ∀ x < b.width, ∀ y < b.height, ∀ i < scale, ∀ j < scale,
          image.data[4 * (((y + quiet) * scale + j) * drawing.width + ((x + quiet) * scale + i))]?
            = some (if b.isOn x y then 0 else 255)
    else
      ofBitmap b (.ofNat scale) (.ofNat quiet) = .error .storage
        ∧ paint b (.ofNat scale) (.ofNat quiet) = .error .storage := by
  rw [ofBitmap_eq_squares b quiet hscale, paint_eq_squares b hscale]
  split_ifs with fits
  · have hcolumns : 0 < Modules.columns b.toRows := b.columns_toRows ▸ b.width_pos
    have hwidth : Drawing.side (Modules.columns b.toRows) scale (quiet * scale)
        = (b.width + 2 * quiet) * scale := by
      rw [b.columns_toRows, Drawing.side]
      ring
    have hheight : Drawing.side b.toRows.length scale (quiet * scale)
        = (b.height + 2 * quiet) * scale := by
      rw [b.length_toRows, Drawing.side]
      ring
    obtain ⟨image, hsquares, hshows⟩ := shows_squares fits
    obtain ⟨drawing, hdrawing, hdrawn⟩ :=
      Drawing.render_eq (q := quiet * scale) hscale hcolumns (by rw [hwidth, hheight]; omega)
    have hon : ∀ px py, drawing.isOn px py = isBlack b scale quiet px py := fun px py => by
      rw [hdrawn.isOn_eq, isBlack_eq_ink hscale]
    have hw := hdrawn.width_eq.trans hwidth
    have hh := hdrawn.height_eq.trans hheight
    refine ⟨image, drawing, hsquares, hsquares, hdrawing,
      (Drawing.render_toRows b hscale _).symm.trans hdrawing, ?_⟩
    rw [hw, hh]
    refine ⟨hshows.width_eq, hshows.height_eq, hshows.size_data, ?_,
      data_of_squares hscale fits hsquares, nodup_writes fits hscale, ?_, ?_⟩
    · intro px hpx py hpy
      rw [hshows.rgba_eq hpx hpy, hon]
    · intro byte hbyte
      obtain ⟨px, hpx, py, hpy, k, hk, hblack, rfl⟩ := exists_of_mem_writes fits hscale hbyte
      exact ⟨px, hpx, py, hpy, k, hk, (hon px py).trans hblack, by rw [Nat.mul_comm]⟩
    · intro x hx y hy i hi j hj
      exact hshows.red_eq hx hy hi hj
  · exact ⟨if_neg fits, if_neg fits⟩

/-- A row of two cells, the left one on. -/
def tile : Bitmap := .ofFn 2 1 Nat.two_pos Nat.one_pos (by decide) fun x _ => x == 0

/-- Inside a margin of one cell, with two pixels a cell, the first pixel of the left cell is black,
and that of the right cell is white. -/
theorem ofBitmap_agrees_tile :
    0 < 2 ∧ ∃ image drawing, ofBitmap tile (.ofNat 2) (.ofNat 1) = .ok image
      ∧ Drawing.render tile.toRows (.ofNat 2) (.ofNat 2) = .ok drawing
      ∧ image.width = .ofNat drawing.width ∧ image.data.size = 4 * drawing.width * drawing.height
      ∧ image.data[4 * (2 * drawing.width + 2)]? = some 0
      ∧ image.data[4 * (2 * drawing.width + 4)]? = some 255 := by
  have h := ofBitmap_agrees tile 2 1 (by decide)
  rw [if_pos (by decide)] at h
  obtain ⟨image, drawing, himage, -, hdrawing, -, hwidth, -, hsize, -, -, -, -, hred⟩ := h
  refine ⟨by decide, image, drawing, himage, hdrawing, hwidth, hsize, ?_, ?_⟩
  · exact hred 0 (by decide) 0 (by decide) 0 (by decide) 0 (by decide)
  · exact hred 1 (by decide) 0 (by decide) 0 (by decide) 0 (by decide)

end PixelBuffer

end MatrixSymbol
