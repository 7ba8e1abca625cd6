/-
Drawings that are cut off at the right and at the bottom (`measurePureGrid`, section 3.4 of the
specification).

Up to half of the last column and of the last row may be missing.  The modules are still counted
exactly, since half a module is rounded up; and where the last sample would land past the edge, all
move back by the one pixel that it does, so that they stay inside their modules.

* `Cropped`: an image shows a drawing up to an edge; `Drawn.exists_crop`: cropping gives such an
  image;
* `Cropped.faced`, `Cropped.lastOn?_eq`: what measuring sees of it;
* `Cropped.measured`: the lattice that is measured in it;
* `Cropped.column_mem`, `Cropped.row_mem`: every module is sampled inside its block;
* `Lattice.measure_crop`: cropping by up to half a module keeps the geometry.
-/
import MatrixSymbol.Proofs.Recovery

namespace MatrixSymbol

/-- An image shows a drawing of modules of `m` pixels a side up to `c` pixels before the end of the
last column, and `e` pixels before that of the last row. -/
structure Cropped (modules : Modules) (m q c e : ℕ) (drawing image : Bitmap) : Prop where
  columns_le : c ≤ m / 2
  rows_le : e ≤ m / 2
  width_eq : image.width = q + modules.columns * m - c
  height_eq : image.height = q + modules.length * m - e
  isOn_eq : ∀ {i j}, i < image.width → j < image.height → image.isOn i j = drawing.isOn i j

section Cropped

variable {round : ℚ → ℚ} {modules : Modules} {m q c e : ℕ} {drawing image : Bitmap}
  (h : Drawn modules m q drawing) (ha : modules.Anchored)

include h ha in
/-- Cropping a drawing gives an image that shows it up to its edge. -/
lemma Drawn.exists_crop (hc : c ≤ m / 2) (he : e ≤ m / 2) :
    ∃ image, drawing.resize (.ofNat (q + modules.columns * m - c))
        (.ofNat (q + modules.length * m - e)) = .ok image
      ∧ Cropped modules m q c e drawing image := by
  have hm := h.size_pos
  have hw := Nat.mul_le_mul_right m ha.columns_ge
  have hh := Nat.mul_le_mul_right m ha.rows_ge
  have hwidth := h.width_eq
  have hheight := h.height_eq
  rw [Drawing.side] at hwidth hheight
  have hfits : (q + modules.columns * m - c) * (q + modules.length * m - e) ≤ Bitmap.capacity :=
    (Nat.mul_le_mul (by omega) (by omega)).trans drawing.size_le
  rw [Bitmap.resize, Bitmap.draw_ofNat (by omega) (by omega), dif_pos hfits]
  refine ⟨_, rfl, hc, he, rfl, rfl, ?_⟩
  intro i j hi hj
  have hi : i < q + modules.columns * m - c := hi
  have hj : j < q + modules.length * m - e := hj
  rw [Bitmap.isOn_ofFn, decide_eq_true hi, decide_eq_true hj, Bool.true_and, Bool.true_and]

namespace Cropped

variable (hcrop : Cropped modules m q c e drawing image)
include h ha hcrop

/-- Of the eighth module of the diagonal the first pixel is left. -/
lemma diagonal_lt : q + m * 7 < image.width ∧ q + m * 7 < image.height := by
  have hm := h.size_pos
  have hw := Nat.mul_le_mul_right m ha.columns_ge
  have hh := Nat.mul_le_mul_right m ha.rows_ge
  have hc := hcrop.columns_le
  have he := hcrop.rows_le
  rw [hcrop.width_eq, hcrop.height_eq]
  omega

/-- A cropped drawing shows the face of its modules. -/
lemma faced : Faced modules m q image := by
  obtain ⟨hright, hbelow⟩ := diagonal_lt h ha hcrop
  refine h.faced_of_agree ha hright hbelow (fun i j hon => ?_)
    (fun i hi => hcrop.isOn_eq hi (by omega)) (fun j hj => hcrop.isOn_eq (by omega) hj)
    fun k hk => hcrop.isOn_eq (by omega) (by omega)
  obtain ⟨hi, hj⟩ := Bitmap.lt_of_isOn hon
  rw [hcrop.isOn_eq hi hj] at hon
  obtain ⟨⟨hi, -⟩, hj, -⟩ := h.mem_of_isOn hon
  exact ⟨hi, hj⟩

/-- Its last dark pixel is the last one that is left of the last module. -/
lemma lastOn?_eq : image.lastOn? = some ⟨image.width - 1, image.height - 1⟩ := by
  have hm := h.size_pos
  have hc := hcrop.columns_le
  have he := hcrop.rows_le
  have hwidth := hcrop.width_eq
  have hheight := hcrop.height_eq
  have hcolumns := ha.columns_ge
  obtain ⟨hright, hbelow⟩ := diagonal_lt h ha hcrop
  refine Bitmap.lastOn?_eq_some_iff.mpr ⟨?_, fun i j hon => ?_⟩
  · dsimp only
    rw [hcrop.isOn_eq (by omega) (by omega)]
    exact h.isOn_corner ha.corner (by omega) (by omega) (by omega) (by omega) (by omega)
  · obtain ⟨hi, hj⟩ := Bitmap.lt_of_isOn hon
    rw [Cell.Before]
    dsimp only
    omega

variable (hr : IsRounding round)
include hr

/-- **The lattice that is measured in a cropped drawing.** -/
theorem measured :
    (Drawing.cropped modules m q c e).Measured round image ⟨q, q⟩
      ⟨image.width - 1, image.height - 1⟩ m := by
  have hwidth := hcrop.width_eq
  have hheight := hcrop.height_eq
  have hm := h.size_pos
  have hc := hcrop.columns_le
  have he := hcrop.rows_le
  obtain ⟨hright, hbelow⟩ := diagonal_lt h ha hcrop
  have hlaid : Lattice.Laid round m (.ofCells ⟨q, q⟩ ⟨image.width - 1, image.height - 1⟩)
      (Drawing.cropped modules m q c e) :=
    h.laid_cropped hr ha hc he (by dsimp only; omega) (by dsimp only; omega)
  exact (faced h ha hcrop).measured ha hr (lastOn?_eq h ha hcrop) (by dsimp only; omega)
    (by dsimp only; omega) hlaid

/-- **Every column is sampled inside its modules**, and inside the image. -/
theorem column_mem {x : ℕ} (hx : x < modules.columns) :
    (q + x * m : ℕ) ≤ (Drawing.cropped modules m q c e).column round x
      ∧ (Drawing.cropped modules m q c e).column round x < (q + x * m + m : ℕ)
      ∧ (Drawing.cropped modules m q c e).column round x < image.width := by
  have hm := h.size_pos
  have hc := hcrop.columns_le
  have hxm := Nat.mul_le_mul_right m hx.le
  have hcovered := ((measured h ha hcrop hr).covered hr).column x hx
  have hoffset : Lattice.offset round m x = (x * m : ℕ) :=
    Lattice.offset_natCast hr (by have := h.sides_lt.1; omega)
  have hcolumn : (Drawing.cropped modules m q c e).column round x
      = q + (m / 2 : ℕ) - max 0 (c + 1 - ((m + 1) / 2 : ℕ)) + (x * m : ℕ) := by
    rw [Lattice.column, Drawing.cropped, hoffset]
  omega

/-- **So is every row.** -/
theorem row_mem {y : ℕ} (hy : y < modules.length) :
    (q + y * m : ℕ) ≤ (Drawing.cropped modules m q c e).row round y
      ∧ (Drawing.cropped modules m q c e).row round y < (q + y * m + m : ℕ)
      ∧ (Drawing.cropped modules m q c e).row round y < image.height := by
  have hm := h.size_pos
  have he := hcrop.rows_le
  have hym := Nat.mul_le_mul_right m hy.le
  have hcovered := ((measured h ha hcrop hr).covered hr).row y hy
  have hoffset : Lattice.offset round m y = (y * m : ℕ) :=
    Lattice.offset_natCast hr (by have := h.sides_lt.2; omega)
  have hrow : (Drawing.cropped modules m q c e).row round y
      = q + (m / 2 : ℕ) - max 0 (e + 1 - ((m + 1) / 2 : ℕ)) + (y * m : ℕ) := by
    rw [Lattice.row, Drawing.cropped, hoffset]
  omega

end Cropped

end Cropped

/-! ### Measuring cropped drawings -/

namespace Lattice

/-- **Cropping by up to half a module keeps the geometry.**  Let up to half a module be cut off
behind the last column of a drawing, and up to half a module below its last row.  Then the size of
the modules is measured and their numbers are counted as in the whole drawing; the samples start in
the middle of the first module, or, on an axis on which the last one would land past the edge, as
far before it; and every module is sampled inside its square and inside the image. -/
theorem measure_crop (modules : Modules) (ha : modules.Anchored) (size margin c e : ℕ)
    (hsize : 1 ≤ size) (hc : c ≤ size / 2) (he : e ≤ size / 2) (wanted : Bool) :
    if Drawing.side modules.columns size margin * Drawing.side modules.length size margin
        ≤ Bitmap.capacity then
      ∃ image cropped l, Drawing.render modules (.ofNat size) (.ofNat margin) = .ok image
        ∧ image.resize (.ofNat (margin + modules.columns * size - c))
          (.ofNat (margin + modules.length * size - e)) = .ok cropped
        ∧ ((measure Binary64.nearest cropped).run wanted).1 = .ok (.ok l)
        ∧ l.pitch = size ∧ l.width = modules.columns ∧ l.height = modules.length
        ∧ l.left = margin + (size / 2 : ℕ) - max 0 (c + 1 - ((size + 1) / 2 : ℕ))
        ∧ l.top = margin + (size / 2 : ℕ) - max 0 (e + 1 - ((size + 1) / 2 : ℕ))
        ∧ (∀ x < modules.columns, (margin + x * size : ℕ) ≤ l.column Binary64.nearest x
          ∧ l.column Binary64.nearest x < (margin + x * size + size : ℕ)
          ∧ l.column Binary64.nearest x < cropped.width)
        ∧ ∀ y < modules.length, (margin + y * size : ℕ) ≤ l.row Binary64.nearest y
          ∧ l.row Binary64.nearest y < (margin + y * size + size : ℕ)
          ∧ l.row Binary64.nearest y < cropped.height
    else ∃ fault, Drawing.render modules (.ofNat size) (.ofNat margin) = .error fault := by
  have hcolumns : 0 < modules.columns := by have := ha.columns_ge; omega
  split
  · next fits =>
    obtain ⟨image, hrender, hdrawn⟩ := Drawing.render_eq hsize hcolumns fits
    obtain ⟨cropped, hresize, hcrop⟩ := hdrawn.exists_crop ha hc he
    have hmeasured := Cropped.measured hdrawn ha hcrop isRounding_nearest
    exact ⟨image, cropped, Drawing.cropped modules size margin c e, hrender, hresize,
      run_measure_eq_ok_iff.mpr ⟨_, _, _, hmeasured⟩, rfl, rfl, rfl, rfl, rfl,
      fun x hx => Cropped.column_mem hdrawn ha hcrop isRounding_nearest hx,
      fun y hy => Cropped.row_mem hdrawn ha hcrop isRounding_nearest hy⟩
  · next fits => exact Drawing.render_eq_error hsize hcolumns fits

/-- Modules of four pixels inside a margin of one, of which half a column and a quarter of a row are
missing: the columns start a pixel before the middle of the first one, and the rows in the middle.
-/
theorem measure_crop_oblong :
    Extraction.oblong.Anchored ∧ 1 ≤ 4 ∧ 2 ≤ 4 / 2 ∧ 1 ≤ 4 / 2
    ∧ ∃ image cropped l, Drawing.render Extraction.oblong (.ofNat 4) (.ofNat 1) = .ok image
      ∧ image.resize (.ofNat 35) (.ofNat 32) = .ok cropped
      ∧ ((measure Binary64.nearest cropped).run true).1 = .ok (.ok l)
      ∧ l.pitch = 4 ∧ l.width = 9 ∧ l.height = 8 ∧ l.left = 2 ∧ l.top = 3
      ∧ 33 ≤ l.column Binary64.nearest 8 ∧ l.column Binary64.nearest 8 < cropped.width := by
  have hanchored : Extraction.oblong.Anchored := by decide
  have h :=
    measure_crop Extraction.oblong hanchored 4 1 2 1 (by decide) (by decide) (by decide) true
  rw [if_pos (by decide)] at h
  obtain ⟨image, cropped, l, hrender, hresize, hmeasure, hpitch, hwidth, hheight, hleft, htop,
    hcolumn, -⟩ := h
  obtain ⟨hlow, -, hhigh⟩ := hcolumn 8 (by decide)
  exact ⟨hanchored, by decide, by decide, by decide, image, cropped, l, hrender, hresize, hmeasure,
    hpitch, hwidth, hheight, hleft, htop, hlow, hhigh⟩

end Lattice

end MatrixSymbol
