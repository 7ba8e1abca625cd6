/-
Columns and rows play the same part (`extractPureBits`, section 3.4 of the specification).

Every step of extraction is taken twice, along the columns and along the rows.  Here the two are
shown to be mirror images: from an image with columns and rows exchanged, everything that is
measured in the image is measured with its axes exchanged.  What the two halves share has to be
symmetric by itself: the diagonal, the sum of the two axes, which does not depend on their order if
nothing is rounded, and the vote, which counts the same pixels in another order.  The first and the
last dark pixel are the exception, as these are extremes row by row; that they are extremes column
by column as well has to be assumed.

* `Bitmap.transpose`, `Bitmap.Aligned`: columns and rows exchanged, and the images in which the
  first and the last dark pixel do not depend on that;
* `Pitch.measured?_transpose`, `Pitch.refined_transpose`: pitches stay the same;
* `Lattice.Measured.transpose`: the axes of the lattice are exchanged;
* `Vote.read_transpose`: votes stay the same;
* `Extraction.extract_transpose`: extraction of the transposed image gives the transposed grid.
-/
import MatrixSymbol.Proofs.Recovery

namespace MatrixSymbol

/-! ### Columns and rows exchanged -/

/-- A cell with column and row exchanged. -/
def Cell.transpose (c : Cell) : Cell := ⟨c.y, c.x⟩

/-- Bounds with columns and rows exchanged. -/
def Bounds.transpose (b : Bounds) : Bounds := ⟨b.top, b.left, b.bottom, b.right⟩

/-- A lattice with columns and rows exchanged. -/
def Lattice.transpose (l : Lattice) : Lattice := ⟨l.pitch, l.top, l.left, l.height, l.width⟩

namespace Bitmap

/-- A bitmap with columns and rows exchanged. -/
def transpose (b : Bitmap) : Bitmap :=
  ofFn b.height b.width b.height_pos b.width_pos (Nat.mul_comm _ _ ▸ b.size_le)
    fun x y => b.isOn y x

/-- An image begins and ends with the same dark pixels row by row and column by column. -/
structure Aligned (b : Bitmap) : Prop where
  first : ∀ c, b.firstOn? = some c →
    ∀ x y, b.isOn x y = true → c.transpose.Before (Cell.transpose ⟨x, y⟩)
  last : ∀ c, b.lastOn? = some c →
    ∀ x y, b.isOn x y = true → (Cell.transpose ⟨x, y⟩).Before c.transpose

variable (b : Bitmap)

@[simp] lemma width_transpose : b.transpose.width = b.height := rfl

@[simp] lemma height_transpose : b.transpose.height = b.width := rfl

@[simp] lemma isOn_transpose (x y : ℕ) : b.transpose.isOn x y = b.isOn y x := by
  rw [transpose, isOn_ofFn]
  cases hon : b.isOn y x with
  | false => exact Bool.and_false _
  | true =>
    obtain ⟨hy, hx⟩ := lt_of_isOn hon
    rw [decide_eq_true hx, decide_eq_true hy]
    rfl

/-- Exchanging twice changes nothing. -/
lemma transpose_transpose : b.transpose.transpose = b :=
  ext_isOn rfl rfl fun x y _ _ => by rw [isOn_transpose, isOn_transpose]

/-- A drawn bitmap is transposed by exchanging the arguments of its function. -/
lemma transpose_ofFn {w h : ℕ} (hw : 0 < w) (hh : 0 < h) (hc : w * h ≤ capacity)
    (hc' : h * w ≤ capacity) (on : ℕ → ℕ → Bool) :
    (ofFn w h hw hh hc on).transpose = ofFn h w hh hw hc' fun x y => on y x := by
  refine ext_isOn rfl rfl fun x y _ _ => ?_
  rw [isOn_transpose, isOn_ofFn, isOn_ofFn, Bool.and_comm (decide (y < w))]

variable {b}

/-- A blank bitmap stays blank. -/
lemma firstOn?_transpose_eq_none (h : b.firstOn? = none) : b.transpose.firstOn? = none := by
  rw [firstOn?_eq_none_iff] at h ⊢
  intro x y
  rw [isOn_transpose, h]

namespace Aligned

variable (h : b.Aligned)
include h

/-- The first dark pixel stays the first. -/
lemma firstOn?_transpose {c : Cell} (hfirst : b.firstOn? = some c) :
    b.transpose.firstOn? = some c.transpose := by
  refine firstOn?_eq_some_iff.mpr ⟨?_, fun x y hon => ?_⟩
  · rw [isOn_transpose]
    exact (firstOn?_spec hfirst).1
  · rw [isOn_transpose] at hon
    exact h.first c hfirst y x hon

/-- The last dark pixel stays the last. -/
lemma lastOn?_transpose {c : Cell} (hlast : b.lastOn? = some c) :
    b.transpose.lastOn? = some c.transpose := by
  refine lastOn?_eq_some_iff.mpr ⟨?_, fun x y hon => ?_⟩
  · rw [isOn_transpose]
    exact (lastOn?_spec hlast).1
  · rw [isOn_transpose] at hon
    exact h.last c hlast y x hon

/-- An image is aligned with columns and rows exchanged as well. -/
lemma transpose : b.transpose.Aligned := by
  constructor
  case first =>
    intro c hc x y hon
    rw [isOn_transpose] at hon
    cases hfirst : b.firstOn? with
    | none =>
      rw [firstOn?_transpose_eq_none hfirst] at hc
      cases hc
    | some d =>
      rw [h.firstOn?_transpose hfirst] at hc
      obtain rfl := Option.some.inj hc
      exact (firstOn?_spec hfirst).2 y x hon
  case last =>
    intro c hc x y hon
    rw [isOn_transpose] at hon
    cases hlast : b.lastOn? with
    | none =>
      rw [lastOn?_eq_none_iff.mp hlast] at hon
      cases hon
    | some d =>
      rw [h.lastOn?_transpose hlast] at hc
      obtain rfl := Option.some.inj hc
      exact (lastOn?_spec hlast).2 y x hon

end Aligned

end Bitmap

/-- The drawing of an anchored symbol is aligned: it begins and ends with dark corners. -/
lemma Drawn.aligned {modules : Modules} {m q : ℕ} {image : Bitmap} (h : Drawn modules m q image)
    (ha : modules.Anchored) : image.Aligned := by
  have hcolumns : 0 < modules.columns := by have := ha.columns_ge; omega
  constructor
  case first =>
    intro c hc x y hon
    rw [h.firstOn?_eq ha.isDark_zero hcolumns] at hc
    obtain rfl := Option.some.inj hc
    obtain ⟨⟨hx, -⟩, hy, -⟩ := h.mem_of_isOn hon
    simp only [Cell.transpose, Cell.Before]
    omega
  case last =>
    intro c hc x y hon
    rw [h.lastOn?_eq ha.corner hcolumns] at hc
    obtain rfl := Option.some.inj hc
    obtain ⟨⟨-, hx⟩, -, hy⟩ := h.mem_of_isOn hon
    simp only [Cell.transpose, Cell.Before]
    omega

/-! ### Pitches -/

namespace Ray

variable (b : Bitmap) (dx dy : ℤ)

lemma inside_transpose (x y : ℤ) : inside b.transpose y x = inside b x y := by
  rw [Bool.eq_iff_iff, inside_iff, inside_iff]
  exact And.comm

/-- A walk meets the same colours with its axes exchanged. -/
lemma walk_transpose (fuel : ℕ) (x y : ℤ) :
    walk b.transpose dy dx fuel y x = walk b dx dy fuel x y := by
  induction fuel generalizing x y with
  | zero => rfl
  | succ fuel ih => rw [walk, walk, inside_transpose, b.isOn_transpose, ih]

lemma cast_transpose (x y : ℤ) : cast b.transpose y x dy dx = cast b x y dx dy := by
  rw [cast, cast, walk_transpose, b.width_transpose, b.height_transpose, max_comm]

end Ray

namespace Pitch

variable {round : ℚ → ℚ} (image : Bitmap) (x y : ℕ)

/-- The two axes show the same pitches, exchanged, and the diagonal shows the same one. -/
lemma measured?_transpose (dx dy : ℤ) :
    measured? round image.transpose y x dy dx = measured? round image x y dx dy := by
  rw [measured?, measured?, seen, seen, Ray.cast_transpose]

/-- The sum of three measurements does not depend on the order of the last two. -/
def Orderless (round : ℚ → ℚ) : Prop :=
  ∀ a b c, round (round (a + b) + c) = round (round (a + c) + b)

lemma orderless_id : Orderless id := fun a b c => add_right_comm a b c

/-- **The mean of the measurements is the same**, if it does not depend on their order. -/
theorem refined_transpose (ho : Orderless round) (diagonal : ℚ) :
    refined round image.transpose y x diagonal = refined round image x y diagonal := by
  rw [refined, refined, measured?_transpose, measured?_transpose]
  cases measured? round image x y 1 0 with
  | none => simp
  | some horizontal =>
    cases measured? round image x y 0 1 with
    | none => simp
    | some vertical => simp [mean, ho _ vertical]

end Pitch

/-! ### Lattices -/

namespace Lattice

variable {round : ℚ → ℚ}

/-- Sides are squared up alike. -/
lemma squareUp_swap (w h : ℤ) : squareUp h w = (squareUp w h).swap := by
  rw [squareUp, squareUp, min_comm, ← Int.natAbs_neg, neg_sub]
  split <;> rfl

lemma isEmpty_transpose (b : Bounds) : b.transpose.isEmpty = b.isEmpty := Bool.or_comm _ _

/-- Bounds are stretched alike. -/
lemma bounds_transpose (image : Bitmap) (pitch : ℚ) (raw : Bounds) :
    bounds round image.transpose pitch raw.transpose
      = (bounds round image pitch raw).transpose := by
  rw [bounds, bounds, isEmpty_transpose]
  split <;> rfl

variable {image : Bitmap} {l : Lattice}

/-- A lattice fits between bounds alike. -/
lemma Laid.transpose {pitch : ℚ} {b : Bounds} (h : Laid round pitch b l) :
    Laid round pitch b.transpose l.transpose where
  pitch_eq := h.pitch_eq
  columns_pos := h.rows_pos
  rows_pos := h.columns_pos
  sides_eq := (squareUp_swap _ _).trans (congrArg Prod.swap h.sides_eq)
  across_fits := h.down_fits
  down_fits := h.across_fits
  left_eq := h.top_eq
  top_eq := h.left_eq

/-- **The lattice measured in an image is measured with its axes exchanged** once columns and rows
are. -/
theorem Measured.transpose (ho : Pitch.Orderless round) {first last : Cell} {diagonal : ℚ}
    (h : l.Measured round image first last diagonal) (haligned : image.Aligned) :
    l.transpose.Measured round image.transpose first.transpose last.transpose diagonal := by
  have hbounds : bounds round image.transpose l.pitch (.ofCells first.transpose last.transpose)
      = (bounds round image l.pitch (.ofCells first last)).transpose :=
    bounds_transpose image l.pitch (.ofCells first last)
  constructor
  case first_eq => exact haligned.firstOn?_transpose h.first_eq
  case last_eq => exact haligned.lastOn?_transpose h.last_eq
  case diagonal_eq =>
    exact (Pitch.measured?_transpose image first.x first.y 1 1).trans h.diagonal_eq
  case pitch_eq => exact h.pitch_eq.trans (Pitch.refined_transpose image _ _ ho diagonal).symm
  case encloses =>
    exact (congrArg Bounds.isEmpty hbounds).trans ((isEmpty_transpose _).trans h.encloses)
  case laid => exact hbounds.symm ▸ h.laid.transpose

/-- **The lattice is measured in both images or in neither.** -/
theorem run_measure_transpose (ho : Pitch.Orderless round) (haligned : image.Aligned)
    (wanted : Bool) :
    (∃ failure failure', ((measure round image).run wanted).1 = .ok (.error failure)
      ∧ ((measure round image.transpose).run wanted).1 = .ok (.error failure'))
    ∨ ∃ l, ((measure round image).run wanted).1 = .ok (.ok l)
      ∧ ((measure round image.transpose).run wanted).1 = .ok (.ok l.transpose) := by
  obtain ⟨answer, hanswer, -⟩ := @exists_run_measure round image wanted
  obtain ⟨answer', hanswer', -⟩ := @exists_run_measure round image.transpose wanted
  cases answer with
  | ok l =>
    obtain ⟨first, last, diagonal, hmeasured⟩ := run_measure_eq_ok_iff.mp hanswer
    exact Or.inr ⟨l, hanswer,
      run_measure_eq_ok_iff.mpr ⟨_, _, _, hmeasured.transpose ho haligned⟩⟩
  | error failure =>
    cases answer' with
    | error failure' => exact Or.inl ⟨failure, failure', hanswer, hanswer'⟩
    | ok l' =>
      -- exchanging once more leads back to the image
      obtain ⟨first, last, diagonal, hmeasured⟩ := run_measure_eq_ok_iff.mp hanswer'
      have hback := hmeasured.transpose ho haligned.transpose
      rw [image.transpose_transpose] at hback
      rw [run_measure_eq_ok_iff.mpr ⟨_, _, _, hback⟩] at hanswer
      cases hanswer

end Lattice

/-! ### Votes -/

namespace Vote

/-- A square holds the same pixels, listed column by column instead of row by row. -/
lemma square_transpose (b : Bitmap) (x y : ℤ) (reach : ℕ) :
    (square b.transpose y x reach).Perm ((square b x y reach).map Cell.transpose) := by
  rw [← Multiset.coe_eq_coe, square, square, List.map_flatMap, ← Multiset.coe_bind,
    ← Multiset.coe_bind]
  simp only [List.map_map]
  exact Multiset.bind_map_comm (window b.width x reach : Multiset ℕ)
    (window b.height y reach : Multiset ℕ)

/-- **A vote gives the same colour** once columns and rows are exchanged. -/
theorem read_transpose (b : Bitmap) (x y size : ℤ) :
    read b.transpose y x size = read b x y size := by
  rw [read, read, b.isOn_transpose]
  split
  · rfl
  · have hsquare := square_transpose b x y (min maxReach (size / 2).toNat)
    rw [poll, poll, hsquare.countP_eq, hsquare.length_eq, List.countP_map, List.length_map]
    simp only [Function.comp_def, Cell.transpose, b.isOn_transpose]

end Vote

/-! ### Extraction -/

namespace Extraction

lemma readAt_transpose (round : ℚ → ℚ) (image : Bitmap) (l : Lattice) (x y : ℕ) :
    readAt round image.transpose l.transpose y x = readAt round image l x y :=
  Vote.read_transpose image _ _ _

/-- **Columns and rows play the same part.**  Let the first and the last dark pixel of an image, if
there are any, be the same row by row and column by column, and let nothing be rounded.  With
columns and rows exchanged the image is read alike: the axes of the lattice are exchanged, and the
grid is transposed. -/
theorem extract_transpose (image : Bitmap) (haligned : image.Aligned) (wanted : Bool) :
    ReadAlike id image image.transpose wanted Lattice.transpose Bitmap.transpose := by
  refine readAlike_of_measured isRounding_id
    (Lattice.run_measure_transpose Pitch.orderless_id haligned wanted)
    (fun l => Nat.mul_comm _ _) fun l _ hw hh hroom hw' hh' hroom' => ?_
  rw [Bitmap.transpose_ofFn hw hh hroom hroom']
  exact Bitmap.ofFn_congr hw' hh' hroom' fun x _ y _ => readAt_transpose id image l y x

/-- The drawing of a symbol that is wider than it is high, and the same drawing with columns and
rows exchanged. -/
theorem extract_transpose_oblong :
    ∃ image grid : Bitmap, Drawing.render oblong (.ofNat 4) (.ofNat 1) = .ok image
      ∧ image.Aligned
      ∧ ((extract id image).run true).1 = .ok (.ok grid)
      ∧ ((extract id image.transpose).run true).1 = .ok (.ok grid.transpose)
      ∧ grid.toRows = oblong := by
  have hanchored : oblong.Anchored := by decide
  obtain ⟨image, hrender, hdrawn⟩ :=
    @Drawing.render_eq oblong 4 1 (by decide) (by decide) (by decide)
  obtain ⟨grid, hgrid, -, -, hrows⟩ :=
    run_extract_of_drawn isRounding_id hdrawn hanchored (Or.inr (by decide)) true
  have haligned := hdrawn.aligned hanchored
  exact ⟨image, grid, hrender, haligned, hgrid,
    (extract_transpose image haligned true).run_extract hgrid, hrows⟩

end Extraction

end MatrixSymbol
