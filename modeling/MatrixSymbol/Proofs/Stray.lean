/-
A stray dark pixel that stretches the bounds (`measurePureGrid`, section 3.4 of the specification).

A dark pixel that lies beyond a square symbol, in line with its last column or its last row, is the
last dark pixel of the image, and the bounds reach out to it.  If the sides that are then counted
differ by more than a fifth, both fall back to the smaller one, which is that of the symbol.  The
stray pixel lies on none of the three rays that are measured and in no module, so that the grid is
the one drawn.

* `Strayed`: an image shows a drawing and one dark pixel besides; `Strayed.isOn_eq`: it differs from
  the drawing nowhere else;
* `Stretches`: that pixel stretches one axis of a square symbol by more than a fifth;
  `Stretches.squareUp_eq`: the sides fall back to those of the symbol;
* `Strayed.lastOn?_eq`, `Strayed.faced`, `Strayed.measured`: what is measured in the image;
* `Extraction.extract_stray`: extraction gives the modules that were drawn.
-/
import MatrixSymbol.Proofs.Recovery

namespace MatrixSymbol

/-- A pixel lies in one of the modules of a drawing. -/
def Drawing.Inner (modules : Modules) (m q i j : ℕ) : Prop :=
  (q ≤ i ∧ i < q + modules.columns * m) ∧ q ≤ j ∧ j < q + modules.length * m

/-- An image shows the modules of a drawing and one dark pixel besides. -/
structure Strayed (modules : Modules) (m q : ℕ) (drawing : Bitmap) (stray : Cell) (image : Bitmap) :
    Prop where
  width_ge : q + modules.columns * m ≤ image.width
  height_ge : q + modules.length * m ≤ image.height
  inner : ∀ i j, Drawing.Inner modules m q i j → image.isOn i j = drawing.isOn i j
  outer : ∀ i j, ¬ Drawing.Inner modules m q i j → (image.isOn i j = true ↔ (⟨i, j⟩ : Cell) = stray)

/-- A pixel lies beyond a square symbol of `d` modules, in line with its last column or row, and so
far out that more modules are counted up to it than a fifth above `d`. -/
inductive Stretches (d m q : ℕ) (stray : Cell) : Prop
  | below (column : stray.x = q + d * m - 1) (row : q + d * m ≤ stray.y)
      (far : ((d + d / 5 : ℕ) : ℤ) < ⌊((stray.y : ℚ) - q + 1) / m + 1 / 2⌋)
  | right (row : stray.y = q + d * m - 1) (column : q + d * m ≤ stray.x)
      (far : ((d + d / 5 : ℕ) : ℤ) < ⌊((stray.x : ℚ) - q + 1) / m + 1 / 2⌋)

/-! ### Counting up to a stray pixel -/

namespace Stretches

variable {d m q : ℕ} {stray : Cell} (h : Stretches d m q stray)
include h

/-- The pixel is beyond the symbol on one axis, and on no axis before its end. -/
lemma beyond : (q + d * m ≤ stray.x + 1 ∧ q + d * m ≤ stray.y + 1)
    ∧ (q + d * m ≤ stray.x ∨ q + d * m ≤ stray.y) := by
  cases h <;> omega

variable {round : ℚ → ℚ} (hr : IsRounding round)
include hr

omit h in
/-- More than `n` modules by the exact quotient are more than `n` by the rounded one. -/
lemma lt_modulesIn {n last : ℕ} (hn : n + 1 < 2 ^ 52)
    (hfar : (n : ℤ) < ⌊((last : ℚ) - q + 1) / m + 1 / 2⌋) :
    (n : ℤ) < Lattice.modulesIn round ((last : ℤ) - q + 1) m := by
  have hfloor := Int.le_floor.mp (Int.add_one_le_of_lt hfar)
  refine Int.lt_iff_add_one_le.mpr ?_
  exact_mod_cast Lattice.le_modulesIn hr (Nat.succ_pos n) hn (by push_cast at hfloor ⊢; linarith)

/-- **The sides fall back to those of the symbol.** -/
theorem squareUp_eq (hm : 0 < m) (hd : 0 < d) (hlt : d * m < 2 ^ 51) :
    0 < Lattice.modulesIn round ((stray.x : ℤ) - q + 1) m
      ∧ 0 < Lattice.modulesIn round ((stray.y : ℤ) - q + 1) m
      ∧ Lattice.squareUp (Lattice.modulesIn round ((stray.x : ℤ) - q + 1) m)
        (Lattice.modulesIn round ((stray.y : ℤ) - q + 1) m) = ((d : ℤ), (d : ℤ)) := by
  have hpos := Nat.mul_pos hd hm
  have hle := Nat.le_mul_of_pos_right d hm
  have hcount : ∀ last : ℕ, last = q + d * m - 1 →
      Lattice.modulesIn round ((last : ℤ) - q + 1) m = d := fun last hlast =>
    Lattice.modulesIn_blocks hr hm hd (Nat.zero_le (m / 2)) (by omega) (by omega)
  cases h with
  | below column row far =>
    have hrows := lt_modulesIn hr (by omega) far
    rw [hcount _ column, Lattice.squareUp, if_pos (by omega), min_eq_left (by omega)]
    exact ⟨by omega, by omega, rfl⟩
  | right row column far =>
    have hcolumns := lt_modulesIn hr (by omega) far
    rw [hcount _ row, Lattice.squareUp, if_pos (by omega), min_eq_right (by omega)]
    exact ⟨by omega, by omega, rfl⟩

end Stretches

/-! ### Measuring past a stray pixel -/

namespace Strayed

variable {round : ℚ → ℚ} {modules : Modules} {m q : ℕ} {drawing image : Bitmap} {stray : Cell}
  (h : Drawn modules m q drawing) (hs : Strayed modules m q drawing stray image)
include h hs

/-- The image differs from the drawing in nothing but the stray pixel. -/
lemma isOn_eq {i j : ℕ} (hne : (⟨i, j⟩ : Cell) ≠ stray) : image.isOn i j = drawing.isOn i j := by
  by_cases hinner : Drawing.Inner modules m q i j
  · exact hs.inner i j hinner
  · have himage : image.isOn i j ≠ true := fun hon => hne ((hs.outer i j hinner).mp hon)
    have hdrawing : drawing.isOn i j ≠ true := fun hon => hinner (h.mem_of_isOn hon)
    rw [Bool.eq_false_iff.mpr himage, Bool.eq_false_iff.mpr hdrawing]

variable (ha : modules.Anchored) (hsquare : modules.columns = modules.length)
  (hstretch : Stretches modules.columns m q stray)
include ha hsquare hstretch

omit h ha in
/-- The last dark pixel is the stray one. -/
lemma lastOn?_eq : image.lastOn? = some stray := by
  obtain ⟨⟨hx, hy⟩, hbeyond⟩ := hstretch.beyond
  refine Bitmap.lastOn?_eq_some_iff.mpr ⟨?_, fun i j hon => ?_⟩
  · refine (hs.outer stray.x stray.y fun hinner => ?_).mpr rfl
    rw [Drawing.Inner, ← hsquare] at hinner
    omega
  · by_cases hinner : Drawing.Inner modules m q i j
    · rw [Drawing.Inner, ← hsquare] at hinner
      rw [Cell.Before]
      dsimp only
      omega
    · obtain rfl := (hs.outer i j hinner).mp hon
      exact Or.inr ⟨rfl, le_rfl⟩

/-- The image shows the face of the modules, since the stray pixel lies neither in the top row, nor
in the left column, nor on the diagonal of the finder pattern. -/
lemma faced : Faced modules m q image := by
  obtain ⟨⟨hx, hy⟩, hbeyond⟩ := hstretch.beyond
  have hm := h.size_pos
  have hside := Nat.mul_le_mul_right m ha.columns_ge
  have hwidth := hs.width_ge
  have hheight := hs.height_ge
  rw [← hsquare] at hheight
  -- nothing is stray before the last column or row of the symbol, nor in the square they bound
  have hne : ∀ i j, i + 1 < q + modules.columns * m ∨ j + 1 < q + modules.columns * m
      ∨ i < q + modules.columns * m ∧ j < q + modules.columns * m → (⟨i, j⟩ : Cell) ≠ stray := by
    rintro i j hbefore rfl
    dsimp only at hx hy hbeyond
    omega
  refine h.faced_of_agree ha (by omega) (by omega) (fun i j hon => ?_) (fun i _ => ?_)
    (fun j _ => ?_) fun k hk => ?_
  · by_cases hstray : (⟨i, j⟩ : Cell) = stray
    · subst hstray
      dsimp only at hx hy
      omega
    · rw [isOn_eq h hs hstray] at hon
      obtain ⟨⟨hi, -⟩, hj, -⟩ := h.mem_of_isOn hon
      exact ⟨hi, hj⟩
  · exact isOn_eq h hs (hne _ _ (by omega))
  · exact isOn_eq h hs (hne _ _ (by omega))
  · exact isOn_eq h hs (hne _ _ (by omega))

variable (hr : IsRounding round)
include hr

/-- **The lattice measured in the image** is that of the drawing. -/
theorem measured :
    (Drawing.lattice modules m q).Measured round image ⟨q, q⟩ stray m := by
  obtain ⟨⟨hx, hy⟩, hbeyond⟩ := hstretch.beyond
  have hm := h.size_pos
  have hside := Nat.mul_le_mul_right m ha.columns_ge
  have hd : 0 < modules.columns := by have := ha.columns_ge; omega
  obtain ⟨hlw, hlh⟩ := h.sides_lt
  have hlt : modules.columns * m < 2 ^ 51 := by
    have hcapacity := image.sides_le_capacity.1
    have hwidth := hs.width_ge
    rw [Bitmap.capacity] at hcapacity
    omega
  obtain ⟨hcolumns, hrows, hsides⟩ := hstretch.squareUp_eq hr hm hd hlt
  have hlaid : Lattice.Laid round m (.ofCells ⟨q, q⟩ stray) (Drawing.lattice modules m q) := by
    refine Lattice.laid_blocks hr hm rfl hlw hlh hcolumns hrows ?_ ?_ ?_ ?_ ?_
    · rw [hsides, Drawing.lattice, ← hsquare]
    all_goals
      simp only [Drawing.lattice, ← hsquare]
      omega
  exact (faced h hs ha hsquare hstretch).measured ha hr (lastOn?_eq hs hsquare hstretch)
    (by omega) (by omega) hlaid

end Strayed

/-! ### Extraction past a stray pixel -/

namespace Extraction

/-- **A stray dark pixel that stretches the bounds does not change the grid.**  Let an image show an
anchored square symbol with modules of one pixel or of at least three, and be light elsewhere but
for one dark pixel, which lies below the symbol, in line with its last column, or right of it, in
line with its last row, so far out that more modules are counted up to it than a fifth above those
of the symbol.  Then extraction gives the modules that were drawn. -/
theorem extract_stray (modules : Modules) (ha : modules.Anchored)
    (hsquare : modules.columns = modules.length) (size margin : ℕ) (hsize : size = 1 ∨ 3 ≤ size)
    (drawing image : Bitmap)
    (hrender : Drawing.render modules (.ofNat size) (.ofNat margin) = .ok drawing) (stray : Cell)
    (himage : Strayed modules size margin drawing stray image)
    (hstretch : Stretches modules.columns size margin stray) (wanted : Bool) :
    ∃ grid, ((extract Binary64.nearest image).run wanted).1 = .ok (.ok grid)
      ∧ grid.width = modules.columns ∧ grid.height = modules.length ∧ grid.toRows = modules := by
  have hpos : 0 < size := by omega
  have hcolumns := ha.columns_ge
  have h := Drawing.drawn_of_render hpos (by omega) hrender
  have hr := isRounding_nearest
  have hmeasure : ((Lattice.measure Binary64.nearest image).run wanted).1
      = .ok (.ok (Drawing.lattice modules size margin)) :=
    Lattice.run_measure_eq_ok_iff.mpr
      ⟨_, _, _, Strayed.measured h himage ha hsquare hstretch hr⟩
  obtain ⟨hlw, hlh⟩ := h.sides_lt
  have hwidth := himage.width_ge
  have hheight := himage.height_ge
  have hw := Nat.le_mul_of_pos_right modules.columns hpos
  have hh := Nat.le_mul_of_pos_right modules.length hpos
  refine run_extract_of_lattice hr ha.rectangular hmeasure (by omega) (by omega) fun x hx y hy => ?_
  have hxm := Nat.mul_le_mul_right size hx
  have hym := Nat.mul_le_mul_right size hy
  rw [Nat.succ_mul] at hxm hym
  rw [readAt_lattice hr image hlw hlh hx hy]
  refine Vote.read_block hsize (by omega) (by omega) fun i j hi hi' hj hj' => ?_
  rw [himage.inner i j (by rw [Drawing.Inner]; omega), h.isOn_module hx hi hi' hj hj']

/-- A specimen of 21 modules of three pixels, and a dark pixel 30 rows below its last one. -/
def blotted (drawing : Bitmap) : Bitmap :=
  Bitmap.ofFn 63 93 (by decide) (by decide) (by decide) fun i j =>
    drawing.isOn i j || (i == 62 && j == 92)

/-- Down to that pixel 31 modules are counted, ten more than there are. -/
theorem extract_stray_blotted :
    (Specimen.grid 21).Anchored ∧ (Specimen.grid 21).columns = (Specimen.grid 21).length
    ∧ (3 = 1 ∨ 3 ≤ 3)
    ∧ ∃ drawing, Drawing.render (Specimen.grid 21) (.ofNat 3) (.ofNat 0) = .ok drawing
      ∧ Strayed (Specimen.grid 21) 3 0 drawing ⟨62, 92⟩ (blotted drawing)
      ∧ Stretches (Specimen.grid 21).columns 3 0 ⟨62, 92⟩
      ∧ ∃ grid, ((extract Binary64.nearest (blotted drawing)).run true).1 = .ok (.ok grid)
        ∧ grid.toRows = Specimen.grid 21 := by
  have hanchored : (Specimen.grid 21).Anchored := Specimen.anchored_grid (by decide)
  have hcolumns := Specimen.columns_grid 21
  have hlength := Specimen.length_grid 21
  have hsquare := hcolumns.trans hlength.symm
  obtain ⟨drawing, hrender, hdrawn⟩ := @Drawing.render_eq (Specimen.grid 21) 3 0 (by decide)
    (by rw [hcolumns]; decide) (by rw [hcolumns, hlength]; decide)
  have hinner : ∀ i j, Drawing.Inner (Specimen.grid 21) 3 0 i j ↔ i < 63 ∧ j < 63 := by
    intro i j
    rw [Drawing.Inner, hcolumns, hlength]
    omega
  have hstrayed : Strayed (Specimen.grid 21) 3 0 drawing ⟨62, 92⟩ (blotted drawing) := by
    refine ⟨?_, ?_, fun i j hin => ?_, fun i j hout => ?_⟩
    · rw [hcolumns]
      exact le_refl 63
    · rw [hlength]
      exact Nat.le_add_right 63 30
    · obtain ⟨hi, hj⟩ := (hinner i j).mp hin
      have hrow : (j == 92) = false := beq_false_of_ne (by omega)
      rw [blotted, Bitmap.isOn_ofFn, decide_eq_true hi, decide_eq_true (by omega), hrow]
      simp
    · have hlight : drawing.isOn i j = false :=
        Bool.eq_false_iff.mpr fun hon => hout (hdrawn.mem_of_isOn hon)
      rw [blotted, Bitmap.isOn_ofFn, hlight, Cell.mk.injEq]
      simp only [Bool.and_eq_true, decide_eq_true_eq, Bool.false_or, beq_iff_eq]
      omega
  have hstretches : Stretches (Specimen.grid 21).columns 3 0 ⟨62, 92⟩ := by
    refine .below (by rw [hcolumns]) (by rw [hcolumns]; decide) ?_
    rw [hcolumns]
    exact Int.lt_iff_add_one_le.mpr (Int.le_floor.mpr (by norm_num))
  obtain ⟨grid, hgrid, -, -, hrows⟩ := extract_stray _ hanchored hsquare 3 0 (Or.inr le_rfl) drawing
    (blotted drawing) hrender ⟨62, 92⟩ hstrayed hstretches true
  exact ⟨hanchored, hsquare, Or.inr le_rfl, drawing, hrender, hstrayed, hstretches, grid, hgrid,
    hrows⟩

end Extraction

end MatrixSymbol
