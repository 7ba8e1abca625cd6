/-
Drawn symbols are read back exactly (`extractPureBits`, section 3.4 of the specification).

Drawn without noise, an anchored symbol is measured exactly, and every vote then goes over the block
of one module.

* `Lattice.modulesIn_blocks`, `Lattice.fit_blocks`, `Lattice.laid_blocks`: counting and placing
  whole blocks of pixels, of which up to half of the last one may be missing;
* `Drawing.lattice`, `Drawing.cropped`: the lattice of the middles of modules, and that of modules
  of which the last ones are cut off; `Drawn.laid_cropped`: it fits between the first and the last
  pixel;
* `Drawn.measured`: the lattice that is measured in a drawing is that of the middles of its modules;
* `Extraction.run_extract_of_lattice`: extraction from such a lattice, if every vote is for the
  colour of the module;
* `Extraction.extract_render`: extraction recovers every anchored symbol from its drawing.
-/
import MatrixSymbol.Proofs.Extraction
import MatrixSymbol.Proofs.Faces
import MatrixSymbol.Proofs.Sampling

namespace MatrixSymbol

/-! ### Lattices of whole blocks -/

namespace Lattice

variable {round : ℚ → ℚ} (hr : IsRounding round) {m : ℕ} (hm : 0 < m)
include hr

/-- Half a block, rounded down. -/
lemma nudge_natCast (hlt : m < 2 ^ 53) : nudge round m = (m / 2 : ℕ) := by
  have hfloor := Rat.floor_natCast_div_natCast m 2
  rw [nudge, hr.half hlt, Int.natCast_ediv]
  exact hfloor

/-- Whole blocks are offset by whole pixels. -/
lemma offset_natCast {k : ℕ} (hlt : k * m < 2 ^ 52) : offset round m k = (k * m : ℕ) := by
  have hround := hr.natCast hlt
  rw [Nat.cast_mul] at hround
  rw [offset, Int.cast_natCast, hround, ← Nat.cast_mul]
  exact Int.floor_natCast (R := ℚ) (k * m)

/-- A span of at least half a block less than `n` blocks counts as `n` of them. -/
lemma le_modulesIn {n : ℕ} {span : ℤ} (hn : 0 < n) (hlt : n < 2 ^ 52)
    (hle : (n - 1 / 2 : ℚ) ≤ span / m) : n ≤ modulesIn round span m := by
  have hcast : ((2 * n - 1 : ℕ) : ℚ) / 2 = n - 1 / 2 := by
    rw [Nat.cast_sub (by omega)]
    push_cast
    ring
  have hround := hr.half_le (n := 2 * n - 1) (by omega) (hcast.trans_le hle)
  rw [hcast] at hround
  exact Rat.le_floor_iff.mpr (by push_cast; linarith)

include hm

/-- Whole blocks are counted exactly, even if up to half of the last one is missing. -/
lemma modulesIn_blocks {n c : ℕ} {span : ℤ} (hn : 0 < n) (hc : c ≤ m / 2)
    (hspan : span = (n * m : ℕ) - c) (hlt : n < 2 ^ 52) : modulesIn round span m = n := by
  have hm0 : (0 : ℚ) < m := by exact_mod_cast hm
  have hn1 : (1 : ℚ) ≤ n := by exact_mod_cast hn
  have hhalf : (c : ℚ) * 2 ≤ m := by exact_mod_cast (Nat.le_div_iff_mul_le (by norm_num)).mp hc
  have hlow : (n - 1 / 2 : ℚ) ≤ span / m := by
    rw [le_div_iff₀ hm0, hspan]
    push_cast
    linarith
  have hhigh : (span / m : ℚ) ≤ n := by
    rw [div_le_iff₀ hm0, hspan]
    push_cast
    linarith [Nat.cast_nonneg (α := ℚ) c]
  have hround := hr.mono (by linarith) hhigh
  rw [hr.natCast hlt] at hround
  refine le_antisymm (Int.lt_add_one_iff.mp (Rat.floor_lt_iff.mpr ?_)) (le_modulesIn hr hn hlt hlow)
  push_cast
  linarith

/-- Samples of whole blocks start in the middle of the first one, or as far before it as the last
one would land past the end.  That is never too far if at least half of the last block is there. -/
lemma fit_blocks {n q : ℕ} {high : ℤ} (hn : 0 < n) (hlt : n * m < 2 ^ 52)
    (hhigh : (q + n * m : ℕ) ≤ high + (m / 2 : ℕ) + 1) :
    (fit round m (m / 2 : ℕ) q high n).start
        = q + (m / 2 : ℕ) - max 0 (q + (n * m : ℕ) + (m / 2 : ℕ) - m - high)
      ∧ (fit round m (m / 2 : ℕ) q high n).isWrong (m / 2 : ℕ) = false := by
  have hlast : n * m = (n - 1) * m + m := by
    rw [← Nat.succ_mul, Nat.succ_eq_add_one, Nat.sub_add_cancel hn]
  have hoffset : offset round m ((n : ℤ) - 1) = ((n - 1) * m : ℕ) := by
    rw [show (n : ℤ) - 1 = (n - 1 : ℕ) by omega]
    exact offset_natCast hr (by omega)
  rw [fit, Fit.isWrong, hoffset, Bool.and_eq_false_iff, decide_eq_false_iff_not,
    decide_eq_false_iff_not]
  dsimp only
  constructor
  · split <;> omega
  · omega

/-- **A lattice is laid over whole blocks**, with as many of them as are counted and squared up, if
at least half of the last one of either axis is there. -/
theorem laid_blocks {l : Lattice} {q : ℕ} {right bottom : ℤ} (hpitch : l.pitch = m)
    (hwidth : l.width * m < 2 ^ 52) (hheight : l.height * m < 2 ^ 52)
    (hcolumns : 0 < modulesIn round (right - q + 1) m)
    (hrows : 0 < modulesIn round (bottom - q + 1) m)
    (hsides : squareUp (modulesIn round (right - q + 1) m) (modulesIn round (bottom - q + 1) m)
      = ((l.width : ℤ), (l.height : ℤ)))
    (hright : (q + l.width * m : ℕ) ≤ right + (m / 2 : ℕ) + 1)
    (hbottom : (q + l.height * m : ℕ) ≤ bottom + (m / 2 : ℕ) + 1)
    (hleft : l.left = q + (m / 2 : ℕ)
      - max 0 (q + (l.width * m : ℕ) + (m / 2 : ℕ) - m - right))
    (htop : l.top = q + (m / 2 : ℕ)
      - max 0 (q + (l.height * m : ℕ) + (m / 2 : ℕ) - m - bottom)) :
    Laid round m ⟨q, q, right, bottom⟩ l := by
  obtain ⟨hw, hh⟩ := squareUp_pos hcolumns hrows
  rw [hsides] at hw hh
  have hw := Int.natCast_pos.mp hw
  have hh := Int.natCast_pos.mp hh
  have hnudge := nudge_natCast hr (m := m) (by have := Nat.le_mul_of_pos_left m hw; omega)
  have hacross := fit_blocks hr hm hw hwidth hright
  have hdown := fit_blocks hr hm hh hheight hbottom
  refine ⟨hpitch, hcolumns, hrows, hsides, ?_, ?_, ?_, ?_⟩
  · rw [across, hnudge]
    exact hacross.2
  · rw [down, hnudge]
    exact hdown.2
  · rw [across, hnudge]
    exact hleft.trans hacross.1.symm
  · rw [down, hnudge]
    exact htop.trans hdown.1.symm

omit hr hm

/-- Nearly equal sides are already square enough. -/
lemma squareUp_eq {w h : ℕ} (hle : ((w : ℤ) - h).natAbs ≤ min w h / 5) :
    squareUp w h = ((w : ℤ), (h : ℤ)) := by
  rw [squareUp, if_neg (by omega)]

end Lattice

/-! ### The lattice of a drawing -/

namespace Drawing

/-- The lattice of the middles of modules drawn as squares. -/
def lattice (modules : Modules) (m q : ℕ) : Lattice :=
  ⟨m, (q + m / 2 : ℕ), (q + m / 2 : ℕ), modules.columns, modules.length⟩

/-- The lattice of such modules if the last `c` pixels of the last column and the last `e` pixels of
the last row are missing: it starts in the middle of the first module, or as far before it as the
last sample would land past the edge. -/
def cropped (modules : Modules) (m q c e : ℕ) : Lattice where
  pitch := m
  left := q + (m / 2 : ℕ) - max 0 (c + 1 - ((m + 1) / 2 : ℕ))
  top := q + (m / 2 : ℕ) - max 0 (e + 1 - ((m + 1) / 2 : ℕ))
  width := modules.columns
  height := modules.length

/-- If nothing is missing, it is the lattice of the middles. -/
lemma cropped_zero (modules : Modules) {m : ℕ} (hm : 0 < m) (q : ℕ) :
    cropped modules m q 0 0 = lattice modules m q := by
  rw [cropped, lattice, Lattice.mk.injEq]
  exact ⟨rfl, by omega, by omega, rfl, rfl⟩

end Drawing

section Drawn

variable {round : ℚ → ℚ} (hr : IsRounding round) {modules : Modules} {m q : ℕ} {image : Bitmap}
  (h : Drawn modules m q image) (ha : modules.Anchored)

include h in
/-- A drawing that can be stored is small enough for its pixels to be counted exactly. -/
lemma Drawn.sides_lt : modules.columns * m < 2 ^ 52 ∧ modules.length * m < 2 ^ 52 := by
  have hwidth := h.width_eq
  have hheight := h.height_eq
  obtain ⟨hw, hh⟩ := image.sides_le_capacity
  rw [Drawing.side] at hwidth hheight
  rw [Bitmap.capacity] at hw hh
  omega

include h ha

/-- A drawing shows the face of its modules. -/
lemma Drawn.faced : Faced modules m q image := by
  have hm := h.size_pos
  have hw := Nat.mul_le_mul_right m ha.columns_ge
  have hh := Nat.mul_le_mul_right m ha.rows_ge
  have hwidth := h.width_eq
  have hheight := h.height_eq
  rw [Drawing.side] at hwidth hheight
  refine h.faced_of_agree ha (by omega) (by omega) (fun i j hon => ?_) (fun _ _ => rfl)
    (fun _ _ => rfl) (fun _ _ => rfl)
  obtain ⟨⟨hi, -⟩, hj, -⟩ := h.mem_of_isOn hon
  exact ⟨hi, hj⟩

include hr

/-- The lattice of modules of which up to half of the last column and of the last row is missing
fits between the first module and what is left of the last one. -/
lemma Drawn.laid_cropped {c e : ℕ} (hc : c ≤ m / 2) (he : e ≤ m / 2) {last : Cell}
    (hx : last.x + c + 1 = q + modules.columns * m)
    (hy : last.y + e + 1 = q + modules.length * m) :
    Lattice.Laid round m (.ofCells ⟨q, q⟩ last) (Drawing.cropped modules m q c e) := by
  have hm := h.size_pos
  have hcolumns : 0 < modules.columns := by have := ha.columns_ge; omega
  have hrows : 0 < modules.length := by have := ha.rows_ge; omega
  obtain ⟨hwidth, hheight⟩ := h.sides_lt
  have hcountx : Lattice.modulesIn round ((last.x : ℤ) - q + 1) m = modules.columns :=
    Lattice.modulesIn_blocks hr hm hcolumns hc (by omega)
      ((Nat.le_mul_of_pos_right _ hm).trans_lt hwidth)
  have hcounty : Lattice.modulesIn round ((last.y : ℤ) - q + 1) m = modules.length :=
    Lattice.modulesIn_blocks hr hm hrows he (by omega)
      ((Nat.le_mul_of_pos_right _ hm).trans_lt hheight)
  refine Lattice.laid_blocks hr hm rfl hwidth hheight ?_ ?_ ?_ ?_ ?_ ?_ ?_
  · rw [hcountx]
    exact Int.natCast_pos.mpr hcolumns
  · rw [hcounty]
    exact Int.natCast_pos.mpr hrows
  · rw [hcountx, hcounty]
    exact Lattice.squareUp_eq ha.nearly_square
  all_goals
    simp only [Drawing.cropped]
    omega

/-- **The lattice measured in a drawing** is that of the middles of its modules. -/
theorem Drawn.measured :
    (Drawing.lattice modules m q).Measured round image ⟨q, q⟩
      ⟨q + modules.columns * m - 1, q + modules.length * m - 1⟩ m := by
  have hcolumns := ha.columns_ge
  have hrows := ha.rows_ge
  have hw := Nat.le_mul_of_pos_right modules.columns h.size_pos
  have hh := Nat.le_mul_of_pos_right modules.length h.size_pos
  have hlaid : Lattice.Laid round m
      (.ofCells ⟨q, q⟩ ⟨q + modules.columns * m - 1, q + modules.length * m - 1⟩)
      (Drawing.cropped modules m q 0 0) :=
    h.laid_cropped hr ha (Nat.zero_le _) (Nat.zero_le _) (by dsimp only; omega)
      (by dsimp only; omega)
  rw [Drawing.cropped_zero modules h.size_pos] at hlaid
  exact (h.faced ha).measured ha hr (h.lastOn?_eq ha.corner (by omega)) (by dsimp only; omega)
    (by dsimp only; omega) hlaid

end Drawn

/-! ### Recovery -/

namespace Extraction

/-- On the lattice of the middles of modules, what is read are the votes in these middles. -/
lemma readAt_lattice {round : ℚ → ℚ} (hr : IsRounding round) (image : Bitmap) {modules : Modules}
    {m q x y : ℕ} (hwidth : modules.columns * m < 2 ^ 52) (hheight : modules.length * m < 2 ^ 52)
    (hx : x < modules.columns) (hy : y < modules.length) :
    readAt round image (Drawing.lattice modules m q) x y
      = Vote.read image (q + x * m + m / 2 : ℕ) (q + y * m + m / 2 : ℕ) m := by
  have hxm : x * m ≤ modules.columns * m := Nat.mul_le_mul_right m hx.le
  have hym : y * m ≤ modules.length * m := Nat.mul_le_mul_right m hy.le
  have hcolumn : (Drawing.lattice modules m q).column round x = (q + x * m + m / 2 : ℕ) := by
    rw [Lattice.column, Drawing.lattice, Lattice.offset_natCast hr (by omega)]
    dsimp only
    omega
  have hrow : (Drawing.lattice modules m q).row round y = (q + y * m + m / 2 : ℕ) := by
    rw [Lattice.row, Drawing.lattice, Lattice.offset_natCast hr (by omega)]
    dsimp only
    omega
  have hfloor : (Drawing.lattice modules m q).pitch.floor = m := Int.floor_natCast (R := ℚ) m
  rw [readAt, hcolumn, hrow, hfloor]

/-- Extraction gives modules back if the lattice of their middles is measured, and the vote in every
middle is for the colour of the module. -/
lemma run_extract_of_lattice {round : ℚ → ℚ} (hr : IsRounding round) {modules : Modules} {m q : ℕ}
    {image : Bitmap} {wanted : Bool} (hrectangular : ∀ row ∈ modules, row.length = modules.columns)
    (hmeasure : ((Lattice.measure round image).run wanted).1
      = .ok (.ok (Drawing.lattice modules m q)))
    (hwidth : modules.columns ≤ image.width) (hheight : modules.length ≤ image.height)
    (hread : ∀ x < modules.columns, ∀ y < modules.length,
      readAt round image (Drawing.lattice modules m q) x y = modules.isDark x y) :
    ∃ grid, ((extract round image).run wanted).1 = .ok (.ok grid)
      ∧ grid.width = modules.columns ∧ grid.height = modules.length ∧ grid.toRows = modules := by
  obtain ⟨hw, hh, hextract⟩ := run_extract_eq hr hmeasure
  have hfits : (Drawing.lattice modules m q).width * (Drawing.lattice modules m q).height
      ≤ Bitmap.capacity := (Nat.mul_le_mul hwidth hheight).trans image.size_le
  rw [dif_pos hfits] at hextract
  refine ⟨_, hextract, rfl, rfl, ?_⟩
  rw [Bitmap.toRows_ofFn]
  refine Eq.trans ?_ (Modules.map_range_isDark hrectangular)
  refine List.map_congr_left fun y hy => List.map_congr_left fun x hx => ?_
  exact hread x (List.mem_range.mp hx) y (List.mem_range.mp hy)

/-- Extraction of a drawing gives back the modules that were drawn. -/
lemma run_extract_of_drawn {round : ℚ → ℚ} (hr : IsRounding round) {modules : Modules} {m q : ℕ}
    {image : Bitmap} (h : Drawn modules m q image) (ha : modules.Anchored)
    (hsize : m = 1 ∨ 3 ≤ m) (wanted : Bool) :
    ∃ grid, ((extract round image).run wanted).1 = .ok (.ok grid)
      ∧ grid.width = modules.columns ∧ grid.height = modules.length ∧ grid.toRows = modules := by
  have hmeasure : ((Lattice.measure round image).run wanted).1
      = .ok (.ok (Drawing.lattice modules m q)) :=
    Lattice.run_measure_eq_ok_iff.mpr ⟨_, _, _, h.measured hr ha⟩
  obtain ⟨hwidth, hheight⟩ := h.sides_lt
  have hpair : (m == 2) = false := beq_false_of_ne (by omega)
  refine run_extract_of_lattice hr ha.rectangular hmeasure ?_ ?_ fun x hx y hy => ?_
  · rw [h.width_eq]
    exact (Nat.le_mul_of_pos_right _ h.size_pos).trans (Nat.le_add_right _ _)
  · rw [h.height_eq]
    exact (Nat.le_mul_of_pos_right _ h.size_pos).trans (Nat.le_add_right _ _)
  · rw [readAt_lattice hr image hwidth hheight hx hy, h.read_middle hx hy, hpair, Bool.false_and,
      Bool.or_false]

/-- **Extraction recovers every anchored symbol from its drawing**, with modules of one pixel or of
at least three, inside a margin of any width, whenever there is room for the drawing; and specimens
of at least nine modules a side are such symbols. -/
theorem extract_render :
    (∀ modules : Modules, modules.Anchored → ∀ size margin : ℕ, size = 1 ∨ 3 ≤ size →
      ∀ wanted : Bool,
      if Drawing.side modules.columns size margin * Drawing.side modules.length size margin
          ≤ Bitmap.capacity then
        ∃ image grid, Drawing.render modules (.ofNat size) (.ofNat margin) = .ok image
          ∧ ((extract Binary64.nearest image).run wanted).1 = .ok (.ok grid)
          ∧ grid.width = modules.columns ∧ grid.height = modules.length
          ∧ grid.toRows = modules
      else ∃ fault, Drawing.render modules (.ofNat size) (.ofNat margin) = .error fault)
    ∧ ∀ d : ℕ, 9 ≤ d → ∃ modules, Specimen.modules (.ofNat d) = .ok modules
      ∧ modules.columns = d ∧ modules.length = d ∧ modules.Anchored := by
  constructor
  · intro modules ha size margin hsize wanted
    have hpos : 0 < size := by omega
    have hcolumns : 0 < modules.columns := by have := ha.columns_ge; omega
    split
    · next fits =>
      obtain ⟨image, hrender, hdrawn⟩ := Drawing.render_eq hpos hcolumns fits
      obtain ⟨grid, hgrid⟩ := run_extract_of_drawn isRounding_nearest hdrawn ha hsize wanted
      exact ⟨image, grid, hrender, hgrid⟩
    · next fits => exact Drawing.render_eq_error hpos hcolumns fits
  · intro d hd
    exact ⟨Specimen.grid d, Specimen.modules_ofNat (by omega), Specimen.columns_grid d,
      Specimen.length_grid d, Specimen.anchored_grid hd⟩

/-- An anchored symbol that is wider than it is high. -/
def oblong : Modules := (Specimen.grid 9).take 7 ++ [true :: List.replicate 7 false ++ [true]]

/-- Modules of four pixels, whose votes reach into their neighbours, and no margin, so that the
votes at the edge are cut off. -/
theorem extract_render_oblong :
    oblong.Anchored ∧ oblong.columns = 9 ∧ oblong.length = 8 ∧ (4 = 1 ∨ 3 ≤ 4)
    ∧ (∃ image grid, Drawing.render oblong (.ofNat 4) (.ofNat 0) = .ok image
      ∧ ((extract Binary64.nearest image).run true).1 = .ok (.ok grid)
      ∧ grid.width = 9 ∧ grid.height = 8 ∧ grid.toRows = oblong)
    ∧ ∃ modules, Specimen.modules (.ofNat 9) = .ok modules ∧ modules.Anchored := by
  have hanchored : oblong.Anchored := by decide
  refine ⟨hanchored, rfl, rfl, Or.inr (by decide), ?_, ?_⟩
  · have h := extract_render.1 oblong hanchored 4 0 (Or.inr (by decide)) true
    rwa [if_pos (by decide)] at h
  · obtain ⟨modules, hmodules, -, -, h⟩ := extract_render.2 9 (by decide)
    exact ⟨modules, hmodules, h⟩

end Extraction

end MatrixSymbol
