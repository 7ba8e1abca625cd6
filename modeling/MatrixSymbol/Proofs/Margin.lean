/-
Light margins make no difference (`extractPureBits`, section 3.4 of the specification).

An image is held by a larger one, which is light around it.  Everything that is measured in it is
then found again in the larger image, moved by the offset: rays only meet more of the margin behind
it, the clamps at the edge of an image are not reached, and votes that stay clear of the edge of the
one image also stay clear of that of the other.

* `Bitmap.Inset`: an image is held by a larger one at an offset; `Bitmap.widen`: such an image;
* `Bitmap.Inset.firstOn?_eq`, `Bitmap.Inset.lastOn?_eq`: the first and the last dark pixel move;
* `Bitmap.Margined`: dark pixels keep two pixels away from the edge;
* `Bitmap.Inset.measured?_eq`, `Bitmap.Inset.read_eq`: measurements and votes stay the same;
* `Lattice.run_counted_shift`: between moved bounds the lattice is moved;
* `Extraction.extract_widen`: a wider margin moves the lattice and does not change the grid.
-/
import MatrixSymbol.Proofs.Recovery

namespace MatrixSymbol

/-! ### Moving -/

/-- A cell moved right and down. -/
def Cell.shift (l t : ℕ) (c : Cell) : Cell := ⟨c.x + l, c.y + t⟩

/-- Bounds moved right and down. -/
def Bounds.shift (l t : ℤ) (b : Bounds) : Bounds :=
  ⟨b.left + l, b.top + t, b.right + l, b.bottom + t⟩

/-- A lattice moved right and down. -/
def Lattice.shift (l t : ℤ) (lattice : Lattice) : Lattice :=
  { lattice with left := lattice.left + l, top := lattice.top + t }

/-! ### Images held by larger ones -/

namespace Bitmap

/-- An image is held by another one at an offset, and the other one is light around it. -/
structure Inset (inner outer : Bitmap) (l t : ℕ) : Prop where
  width_le : inner.width + l ≤ outer.width
  height_le : inner.height + t ≤ outer.height
  isOn_eq : ∀ x y, outer.isOn x y = (decide (l ≤ x) && decide (t ≤ y) && inner.isOn (x - l) (y - t))

/-- An image with a light margin of the given widths added at its left, upper, right and lower
edge. -/
def widen (b : Bitmap) (l t r d : ℕ)
    (fits : (b.width + l + r) * (b.height + t + d) ≤ capacity) : Bitmap :=
  ofFn (b.width + l + r) (b.height + t + d) (by have := b.width_pos; omega)
    (by have := b.height_pos; omega) fits
    fun x y => decide (l ≤ x) && decide (t ≤ y) && b.isOn (x - l) (y - t)

lemma inset_widen (b : Bitmap) {l t r d : ℕ}
    (fits : (b.width + l + r) * (b.height + t + d) ≤ capacity) :
    Inset b (b.widen l t r d fits) l t := by
  refine ⟨Nat.le_add_right _ r, Nat.le_add_right _ d, fun x y => ?_⟩
  rw [widen, isOn_ofFn]
  cases hon : decide (l ≤ x) && decide (t ≤ y) && b.isOn (x - l) (y - t) with
  | false => exact Bool.and_false _
  | true =>
    rw [Bool.and_eq_true] at hon
    obtain ⟨hx, hy⟩ := lt_of_isOn hon.2
    rw [decide_eq_true (show x < b.width + l + r by omega),
      decide_eq_true (show y < b.height + t + d by omega)]
    rfl

/-- Dark pixels keep two pixels away from the edge. -/
def Margined (b : Bitmap) : Prop :=
  ∀ x y, b.isOn x y = true → (2 ≤ x ∧ x + 3 ≤ b.width) ∧ 2 ≤ y ∧ y + 3 ≤ b.height

namespace Inset

variable {inner outer : Bitmap} {l t : ℕ} (h : Inset inner outer l t)
include h

/-- Inside the margin the pixels are those of the image. -/
lemma isOn_add (x y : ℕ) : outer.isOn (x + l) (y + t) = inner.isOn x y := by
  rw [h.isOn_eq, decide_eq_true (Nat.le_add_left l x), decide_eq_true (Nat.le_add_left t y),
    Nat.add_sub_cancel, Nat.add_sub_cancel, Bool.true_and, Bool.true_and]

/-- Every dark pixel is one of the image. -/
lemma exists_of_isOn {x y : ℕ} (hon : outer.isOn x y = true) :
    ∃ i j, inner.isOn i j = true ∧ x = i + l ∧ y = j + t := by
  rw [h.isOn_eq] at hon
  simp only [Bool.and_eq_true, decide_eq_true_eq] at hon
  exact ⟨x - l, y - t, hon.2, by omega, by omega⟩

lemma firstOn?_eq_none (hnone : inner.firstOn? = none) : outer.firstOn? = none := by
  rw [firstOn?_eq_none_iff] at hnone ⊢
  intro x y
  rw [h.isOn_eq, hnone, Bool.and_false]

/-- The first dark pixel moves with the image. -/
lemma firstOn?_eq {c : Cell} (hfirst : inner.firstOn? = some c) :
    outer.firstOn? = some (c.shift l t) := by
  obtain ⟨hon, hmin⟩ := firstOn?_spec hfirst
  refine firstOn?_eq_some_iff.mpr ⟨(h.isOn_add _ _).trans hon, fun x y hxy => ?_⟩
  obtain ⟨i, j, hij, rfl, rfl⟩ := h.exists_of_isOn hxy
  have hbefore := hmin i j hij
  simp only [Cell.Before, Cell.shift] at hbefore ⊢
  omega

/-- So does the last one. -/
lemma lastOn?_eq {c : Cell} (hlast : inner.lastOn? = some c) :
    outer.lastOn? = some (c.shift l t) := by
  obtain ⟨hon, hmax⟩ := lastOn?_spec hlast
  refine lastOn?_eq_some_iff.mpr ⟨(h.isOn_add _ _).trans hon, fun x y hxy => ?_⟩
  obtain ⟨i, j, hij, rfl, rfl⟩ := h.exists_of_isOn hxy
  have hbefore := hmax i j hij
  simp only [Cell.Before, Cell.shift] at hbefore ⊢
  omega

/-! ### Rays -/

/-- A measurement meets the same colours at the same distance. -/
lemma pixel_add {dx dy : ℤ} (hd : Ray.Forward dx dy) (x y k : ℕ) :
    Ray.pixel outer (x + l : ℕ) (y + t : ℕ) dx dy k = Ray.pixel inner x y dx dy k := by
  rw [Ray.pixel, Ray.pixel, ← h.isOn_add]
  congr 1 <;> cases hd <;> omega

/-- A measurement meets what it meets in the image, and behind that only the margin. -/
lemma exists_cast_colours {dx dy : ℤ} (hd : Ray.Forward dx dy) (x y : ℕ) :
    ∃ n, (Ray.cast outer (x + l : ℕ) (y + t : ℕ) dx dy).colours
      = (Ray.cast inner x y dx dy).colours ++ List.replicate n false := by
  obtain ⟨n, hcolours, hin, hout⟩ := hd.exists_colours inner x y
  obtain ⟨n', hcolours', -, hout'⟩ := hd.exists_colours outer (x + l) (y + t)
  have hwidth := h.width_le
  have hheight := h.height_le
  have hle : n ≤ n' := by
    by_contra hlt
    have hinner := hin n' (not_le.mp hlt)
    have houter := hout' n' le_rfl
    rw [← Bool.not_eq_true, Ray.inside_iff] at houter
    rw [Ray.inside_iff] at hinner
    push_cast at houter
    omega
  obtain ⟨j, rfl⟩ := Nat.exists_eq_add_of_le hle
  refine ⟨j, ?_⟩
  rw [hcolours, hcolours', funext (h.pixel_add hd x y), List.range_add, List.map_append,
    List.map_map]
  congr 1
  refine List.eq_replicate_iff.mpr ⟨by simp, fun c hc => ?_⟩
  obtain ⟨k, -, rfl⟩ := List.mem_map.mp hc
  exact hd.pixel_eq_false (hout (n + k) (Nat.le_add_right n k))

end Inset

/-- Where dark pixels keep away from the edge, the last colour that a measurement meets is light. -/
lemma Margined.getLastD_colours {b : Bitmap} (hm : b.Margined) {dx dy : ℤ}
    (hd : Ray.Forward dx dy) {x y : ℕ} (hon : b.isOn x y = true) :
    (Ray.cast b x y dx dy).colours.getLastD true = false := by
  obtain ⟨n, hcolours, -, hout⟩ := hd.exists_colours b x y
  rw [hcolours]
  cases n with
  | zero =>
    obtain ⟨hx, hy⟩ := lt_of_isOn hon
    have hstart := hout 0 le_rfl
    rw [← Bool.not_eq_true, Ray.inside_iff] at hstart
    omega
  | succ n =>
    rw [List.range_succ, List.map_append, List.map_singleton, List.getLastD_concat]
    by_contra hlast
    have hkeep := hm _ _ (Bool.not_eq_false _ ▸ hlast)
    have hnext := hout (n + 1) le_rfl
    rw [← Bool.not_eq_true, Ray.inside_iff] at hnext
    cases hd <;> omega

namespace Inset

variable {inner outer : Bitmap} {l t : ℕ} (h : Inset inner outer l t)
include h

/-- **A measurement shows the same pitch** in the image and in the larger one. -/
theorem measured?_eq (hm : inner.Margined) (round : ℚ → ℚ) {dx dy : ℤ} (hd : Ray.Forward dx dy)
    {x y : ℕ} (hon : inner.isOn x y = true) :
    Pitch.measured? round outer (x + l) (y + t) dx dy = Pitch.measured? round inner x y dx dy := by
  obtain ⟨n, hcolours⟩ := h.exists_cast_colours hd x y
  have hpos : 0 < Pitch.transitions := by decide
  cases hedge : (Pitch.seen inner x y dx dy).reachedEdge with
  | true =>
    -- more of the margin brings no further change
    have hlast := hm.getLastD_colours hd hon
    have hedge' : (Pitch.seen outer (x + l) (y + t) dx dy).reachedEdge = true := by
      rw [Pitch.seen, Scan.reachedEdge_count hpos] at hedge ⊢
      rwa [hcolours, Scan.changesAfter_append, hlast, Scan.changesAfter_replicate_self]
    rw [Pitch.measured?_of_reachedEdge hedge, Pitch.measured?_of_reachedEdge hedge']
  | false =>
    have hseen : Pitch.seen outer (x + l) (y + t) dx dy = Pitch.seen inner x y dx dy := by
      rw [Pitch.seen, Pitch.seen, hcolours]
      exact Scan.count_append _ hpos hedge
    rw [Pitch.measured?, Pitch.measured?, hseen]

/-- So does the mean of the measurements. -/
lemma refined_eq (hm : inner.Margined) (round : ℚ → ℚ) {x y : ℕ} (hon : inner.isOn x y = true)
    (diagonal : ℚ) :
    Pitch.refined round outer (x + l) (y + t) diagonal
      = Pitch.refined round inner x y diagonal := by
  rw [Pitch.refined, Pitch.refined, h.measured?_eq hm round .horizontal hon,
    h.measured?_eq hm round .vertical hon]

/-! ### Votes -/

/-- The square of a vote that stays clear of the edges moves with its centre. -/
lemma square_eq {x y reach : ℕ} (hx : reach ≤ x ∧ x + reach < inner.width)
    (hy : reach ≤ y ∧ y + reach < inner.height) :
    Vote.square outer (x + l : ℕ) (y + t : ℕ) reach
      = (Vote.square inner x y reach).map (Cell.shift l t) := by
  rw [Vote.square, Vote.square, Vote.window_add hx.1 hx.2 h.width_le,
    Vote.window_add hy.1 hy.2 h.height_le, List.flatMap_map, List.map_flatMap]
  refine List.flatMap_congr fun j _ => ?_
  rw [List.map_map, List.map_map]
  refine List.map_congr_left fun i _ => ?_
  simp only [Function.comp_apply, Cell.shift, Nat.add_comm]

/-- **A vote that stays clear of the edges gives the same colour** in the image and in the larger
one. -/
theorem read_eq {x y : ℕ} (hx : 2 ≤ x ∧ x + 3 ≤ inner.width) (hy : 2 ≤ y ∧ y + 3 ≤ inner.height)
    (size : ℤ) :
    Vote.read outer (x + l : ℕ) (y + t : ℕ) size = Vote.read inner x y size := by
  have hreach : min Vote.maxReach (size / 2).toNat ≤ 2 := min_le_left _ _
  rw [Vote.read, Vote.read]
  split
  · rw [Int.toNat_natCast, Int.toNat_natCast, h.isOn_add, Int.toNat_natCast, Int.toNat_natCast]
  · rw [Vote.poll, Vote.poll, h.square_eq (by omega) (by omega), List.countP_map, List.length_map]
    congr 2
    funext c
    exact h.isOn_add c.x c.y

end Inset

end Bitmap

/-- In a drawing the margin keeps dark pixels away from the edge. -/
lemma Drawn.margined {modules : Modules} {m q : ℕ} {image : Bitmap} (h : Drawn modules m q image)
    (hq : 2 ≤ q) : image.Margined := by
  intro x y hon
  obtain ⟨hx, hy⟩ := h.mem_of_isOn hon
  rw [h.width_eq, h.height_eq, Drawing.side, Drawing.side]
  omega

/-! ### Moved lattices -/

namespace Lattice

variable {round : ℚ → ℚ}

/-- Between moved bounds the samples of an axis move along. -/
lemma fit_add (pitch : ℚ) (nudge low high count d : ℤ) :
    fit round pitch nudge (low + d) (high + d) count
      = ⟨(fit round pitch nudge low high count).start + d,
          (fit round pitch nudge low high count).excess⟩ := by
  have hexcess : low + d + nudge + offset round pitch (count - 1) - (high + d)
      = low + nudge + offset round pitch (count - 1) - high := by omega
  simp only [fit, hexcess, Fit.mk.injEq, and_true]
  split <;> omega

/-- Between moved bounds a lattice of given sides is moved. -/
lemma run_placed_shift (pitch : ℚ) (b : Bounds) (l t w h : ℤ) (wanted : Bool) :
    ((placed round pitch (b.shift l t) w h).run wanted).1
      = ((placed round pitch b w h).run wanted).1.map (shift l t) := by
  have hacross : across round pitch (b.shift l t) w
      = ⟨(across round pitch b w).start + l, (across round pitch b w).excess⟩ :=
    fit_add pitch _ _ _ w l
  have hdown : down round pitch (b.shift l t) h
      = ⟨(down round pitch b h).start + t, (down round pitch b h).excess⟩ :=
    fit_add pitch _ _ _ h t
  rw [run_placed, run_placed, hacross, hdown, apply_ite (Except.map _), apply_ite (Except.map _)]
  rfl

/-- **Between moved bounds the lattice is moved.** -/
theorem run_counted_shift (pitch : ℚ) (b : Bounds) (l t : ℤ) (wanted : Bool) :
    ((counted round pitch (b.shift l t)).run wanted).1
      = ((counted round pitch b).run wanted).1.map (shift l t) := by
  have hcolumns : (b.shift l t).columns = b.columns := by
    rw [Bounds.columns, Bounds.columns, Bounds.shift]
    dsimp only
    omega
  have hrows : (b.shift l t).rows = b.rows := by
    rw [Bounds.rows, Bounds.rows, Bounds.shift]
    dsimp only
    omega
  rw [run_counted, run_counted, sides, sides, hcolumns, hrows, run_placed_shift,
    apply_ite (Except.map _)]
  rfl

end Lattice

namespace Bitmap.Inset

variable {inner outer : Bitmap} {l t : ℕ} (h : Inset inner outer l t)
include h

/-- **The lattice is measured in both images or in neither**, and moves with the image. -/
theorem run_measure (hm : inner.Margined)
    (hright : ∀ first last, inner.firstOn? = some first → inner.lastOn? = some last →
      first.x < last.x) (round : ℚ → ℚ) (wanted : Bool) :
    (∃ failure failure', ((Lattice.measure round inner).run wanted).1 = .ok (.error failure)
      ∧ ((Lattice.measure round outer).run wanted).1 = .ok (.error failure'))
    ∨ ∃ lattice, ((Lattice.measure round inner).run wanted).1 = .ok (.ok lattice)
      ∧ ((Lattice.measure round outer).run wanted).1 = .ok (.ok (lattice.shift l t)) := by
  cases hfirst : inner.firstOn? with
  | none =>
    exact Or.inl ⟨_, _, Lattice.run_measure_none hfirst wanted,
      Lattice.run_measure_none (h.firstOn?_eq_none hfirst) wanted⟩
  | some first =>
    obtain ⟨last, hlast⟩ := exists_lastOn? hfirst
    have hon := (firstOn?_spec hfirst).1
    have hdiagonal' : Pitch.measured? round outer (first.shift l t).x (first.shift l t).y 1 1
        = Pitch.measured? round inner first.x first.y 1 1 := h.measured?_eq hm round .diagonal hon
    have hrefined : ∀ diagonal, Pitch.refined round outer (first.shift l t).x (first.shift l t).y
        diagonal = Pitch.refined round inner first.x first.y diagonal :=
      h.refined_eq hm round hon
    rw [Lattice.run_measure_some hfirst hlast, Lattice.run_measure_some (h.firstOn?_eq hfirst)
      (h.lastOn?_eq hlast), hdiagonal']
    cases hdiagonal : Pitch.measured? round inner first.x first.y 1 1 with
    | none => exact Or.inl ⟨_, _, rfl, rfl⟩
    | some diagonal =>
      have hx := hright first last hfirst hlast
      have hy := Lattice.lt_of_diagonal hlast hdiagonal
      have hshift : (Bounds.ofCells first last).shift l t
          = .ofCells (first.shift l t) (last.shift l t) := rfl
      dsimp only
      rw [hrefined, Lattice.run_within_ofCells inner _ hx hy,
        Lattice.run_within_ofCells outer _ (Nat.add_lt_add_right hx l)
          (Nat.add_lt_add_right hy t), ← hshift, Lattice.run_counted_shift]
      cases ((Lattice.counted round (Pitch.refined round inner first.x first.y diagonal)
        (.ofCells first last)).run wanted).1 with
      | error failure => exact Or.inl ⟨_, _, rfl, rfl⟩
      | ok lattice => exact Or.inr ⟨lattice, rfl, rfl⟩

/-- A lattice that is measured in an image reads the same colours there as the moved lattice reads
in the larger image. -/
lemma readAt_eq (hm : inner.Margined) {round : ℚ → ℚ} (hr : IsRounding round) {first last : Cell}
    {diagonal : ℚ} {lattice : Lattice}
    (hmeasured : lattice.Measured round inner first last diagonal) (hlt : first.x < last.x)
    {x y : ℕ} (hx : x < lattice.width) (hy : y < lattice.height) :
    Extraction.readAt round outer (lattice.shift l t) x y
      = Extraction.readAt round inner lattice x y := by
  have hfirst := hm _ _ (firstOn?_spec hmeasured.first_eq).1
  have hlast := hm _ _ (lastOn?_spec hmeasured.last_eq).1
  have hpitch : 0 ≤ lattice.pitch := by linarith [hmeasured.half_le_pitch hr]
  have hlaid := hmeasured.laid
  rw [Lattice.bounds_ofCells inner lattice.pitch hlt
    (Lattice.lt_of_diagonal hmeasured.last_eq hmeasured.diagonal_eq)] at hlaid
  have hcolumn := hlaid.column_mem hr hpitch hx
  have hrow := hlaid.row_mem hr hpitch hy
  simp only [Bounds.ofCells] at hcolumn hrow
  obtain ⟨i, hi⟩ := Int.eq_ofNat_of_zero_le (show 0 ≤ lattice.column round x by omega)
  obtain ⟨j, hj⟩ := Int.eq_ofNat_of_zero_le (show 0 ≤ lattice.row round y by omega)
  have hi' : (lattice.shift l t).column round x = ((i + l : ℕ) : ℤ) := by
    rw [Lattice.column] at hi ⊢
    simp only [Lattice.shift]
    omega
  have hj' : (lattice.shift l t).row round y = ((j + t : ℕ) : ℤ) := by
    rw [Lattice.row] at hj ⊢
    simp only [Lattice.shift]
    omega
  rw [Extraction.readAt, Extraction.readAt, hi, hj, hi', hj']
  exact h.read_eq (by omega) (by omega) _

end Bitmap.Inset

namespace Extraction

/-- **A light margin makes no difference.**  Let an image be blank, or let its dark pixels keep two
pixels away from its edge and its last one lie right of its first one.  Whatever widths of light
pixels are added at its four edges, the larger image is read alike: the lattice is moved by what was
added on the left and above, and the grid is the same. -/
theorem extract_widen (image : Bitmap) (l t r d : ℕ)
    (fits : (image.width + l + r) * (image.height + t + d) ≤ Bitmap.capacity)
    (hmargined : image.Margined)
    (hright : ∀ first last, image.firstOn? = some first → image.lastOn? = some last →
      first.x < last.x) (wanted : Bool) :
    ReadAlike Binary64.nearest image (image.widen l t r d fits) wanted (Lattice.shift l t) id := by
  have h := image.inset_widen fits
  have hr := isRounding_nearest
  refine readAlike_of_measured hr (h.run_measure hmargined hright Binary64.nearest wanted)
    (fun _ => rfl) fun lattice hmeasure hw hh hroom _ _ _ => ?_
  obtain ⟨first, last, diagonal, hmeasured⟩ := Lattice.run_measure_eq_ok_iff.mp hmeasure
  have hlt := hright first last hmeasured.first_eq hmeasured.last_eq
  exact Bitmap.ofFn_congr hw hh hroom fun x hx y hy =>
    h.readAt_eq hmargined hr hmeasured hlt hx hy

/-- A drawing with a margin of two pixels, and the same drawing with a different margin at each
edge. -/
theorem extract_widen_oblong :
    ∃ (image grid : Bitmap) (fits : (image.width + 1 + 3) * (image.height + 2 + 4)
        ≤ Bitmap.capacity),
      Drawing.render oblong (.ofNat 4) (.ofNat 2) = .ok image
      ∧ image.Margined
      ∧ (∀ first last, image.firstOn? = some first → image.lastOn? = some last →
        first.x < last.x)
      ∧ ((extract Binary64.nearest image).run true).1 = .ok (.ok grid)
      ∧ ((extract Binary64.nearest (image.widen 1 2 3 4 fits)).run true).1 = .ok (.ok grid)
      ∧ grid.toRows = oblong := by
  have hanchored : oblong.Anchored := by decide
  obtain ⟨image, hrender, hdrawn⟩ :=
    @Drawing.render_eq oblong 4 2 (by decide) (by decide) (by decide)
  obtain ⟨grid, hgrid, -, -, hrows⟩ :=
    run_extract_of_drawn isRounding_nearest hdrawn hanchored (Or.inr (by decide)) true
  have hfits : (image.width + 1 + 3) * (image.height + 2 + 4) ≤ Bitmap.capacity := by
    rw [hdrawn.width_eq, hdrawn.height_eq]
    decide
  have hright : ∀ first last, image.firstOn? = some first → image.lastOn? = some last →
      first.x < last.x := by
    intro first last hfirst hlast
    rw [hdrawn.firstOn?_eq (by decide) (by decide)] at hfirst
    rw [hdrawn.lastOn?_eq (by decide) (by decide)] at hlast
    cases hfirst
    cases hlast
    decide
  have halike := extract_widen image 1 2 3 4 hfits (hdrawn.margined le_rfl) hright true
  exact ⟨image, grid, hfits, hrender, hdrawn.margined le_rfl, hright, hgrid,
    halike.run_extract hgrid, hrows⟩

end Extraction

end MatrixSymbol
