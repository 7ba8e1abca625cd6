/-
The raster extremes of a bitmap, and half a turn (`getTopLeftOnBit` and `getBottomRightOnBit`,
section 2 of the specification).

Turning a bitmap by half a turn reverses the row order of its cells.  So the two searches, from the
start of the storage and from its end, are one and the same search up to a half turn.

* `Bitmap.Marks`: a cell of the bitmap that is read as on;
* `Bitmap.opposite`, `Bitmap.halfTurn`: the cell point-symmetric to a cell, and the bitmap turned by
  180 degrees; `Bitmap.toRows_halfTurn`: its rows are the rows in reverse, each one reversed;
* `Bitmap.opposite_before_opposite_iff`: half a turn reverses the row order;
* `Bitmap.raster_extremes`: the first and the last on cell are the least and the greatest in row
  order, and half a turn exchanges them.
-/
import MatrixSymbol.Proofs.Raster
import MatrixSymbol.Proofs.Rows

namespace MatrixSymbol

namespace Bitmap

variable (b : Bitmap)

/-! ### Cells that are read as on -/

/-- A cell lies in the bitmap and is read as on. -/
structure Marks (c : Cell) : Prop where
  x_lt : c.x < b.width
  y_lt : c.y < b.height
  get_eq : b.get (.ofNat c.x) (.ofNat c.y) = .ok true

/-- These are the cells that the view shows as on. -/
lemma marks_iff {c : Cell} : b.Marks c ↔ b.isOn c.x c.y = true := by
  constructor
  · intro h
    have hget := h.get_eq
    rw [get_ofNat b h.x_lt h.y_lt] at hget
    exact Except.ok.inj hget
  · intro hon
    obtain ⟨hx, hy⟩ := lt_of_isOn hon
    exact ⟨hx, hy, by rw [get_ofNat b hx hy, hon]⟩

/-- The view shows nothing if no cell of the bitmap is on. -/
lemma isOn_eq_false_of_forall_lt (h : ∀ x < b.width, ∀ y < b.height, b.isOn x y = false)
    (x y : ℕ) : b.isOn x y = false := by
  refine Bool.eq_false_iff.mpr fun hon => ?_
  obtain ⟨hx, hy⟩ := lt_of_isOn hon
  rw [h x hx y hy] at hon
  cases hon

/-- The view shows nothing exactly if every cell is read as off. -/
lemma forall_isOn_eq_false_iff :
    (∀ x y, b.isOn x y = false)
      ↔ ∀ x < b.width, ∀ y < b.height, b.get (.ofNat x) (.ofNat y) = .ok false := by
  constructor
  · intro hoff x hx y hy
    rw [get_ofNat b hx hy, hoff]
  · intro hget
    refine b.isOn_eq_false_of_forall_lt fun x hx y hy => ?_
    have hoff := hget x hx y hy
    rw [get_ofNat b hx hy] at hoff
    exact Except.ok.inj hoff

/-! ### Half a turn -/

/-- The cell that lies as far from the last corner as a cell lies from the first one. -/
def opposite (c : Cell) : Cell := ⟨b.width - 1 - c.x, b.height - 1 - c.y⟩

/-- A bitmap turned by 180 degrees. -/
def halfTurn : Bitmap :=
  ofFn b.width b.height b.width_pos b.height_pos b.size_le fun x y =>
    b.isOn (b.width - 1 - x) (b.height - 1 - y)

variable {b} {c d : Cell}

lemma opposite_lt (c : Cell) : (b.opposite c).x < b.width ∧ (b.opposite c).y < b.height := by
  have hw := b.width_pos
  have hh := b.height_pos
  simp only [opposite]
  omega

/-- Taking the opposite cell twice leads back. -/
lemma opposite_opposite (hx : c.x < b.width) (hy : c.y < b.height) :
    b.opposite (b.opposite c) = c := by
  obtain ⟨x, y⟩ := c
  rw [opposite, opposite, Cell.mk.injEq]
  dsimp only at hx hy ⊢
  omega

/-- **Half a turn reverses the row order.** -/
lemma opposite_before_opposite_iff (hcx : c.x < b.width) (hcy : c.y < b.height)
    (hdx : d.x < b.width) (hdy : d.y < b.height) :
    (b.opposite c).Before (b.opposite d) ↔ d.Before c := by
  simp only [opposite, Cell.Before]
  omega

/-- The turned bitmap shows at a cell what the bitmap shows at the opposite one. -/
lemma isOn_halfTurn (hx : c.x < b.width) (hy : c.y < b.height) :
    b.halfTurn.isOn c.x c.y = b.isOn (b.opposite c).x (b.opposite c).y := by
  rw [halfTurn, isOn_ofFn, decide_eq_true hx, decide_eq_true hy, Bool.true_and, Bool.true_and,
    opposite]

lemma reverse_map_range {α : Type} (n : ℕ) (f : ℕ → α) :
    ((List.range n).map f).reverse = (List.range n).map fun i => f (n - 1 - i) := by
  refine List.ext_getElem (by simp only [List.length_reverse, List.length_map]) fun i hi hi' => ?_
  simp only [List.getElem_reverse, List.getElem_map, List.getElem_range, List.length_map,
    List.length_range]

/-- The rows of the turned bitmap are the rows in reverse, each one reversed. -/
lemma toRows_halfTurn (b : Bitmap) : b.halfTurn.toRows = (b.toRows.map List.reverse).reverse := by
  rw [halfTurn, toRows_ofFn, toRows, List.map_map, reverse_map_range]
  refine List.map_congr_left fun y _ => ?_
  rw [Function.comp_apply, reverse_map_range]

/-- What is on in the turned bitmap is opposite to what is on in the bitmap. -/
lemma isOn_opposite_iff (hx : c.x < b.width) (hy : c.y < b.height) :
    b.halfTurn.isOn (b.opposite c).x (b.opposite c).y = true ↔ b.isOn c.x c.y = true := by
  obtain ⟨hox, hoy⟩ := opposite_lt (b := b) c
  rw [isOn_halfTurn hox hoy, opposite_opposite hx hy]

/-- The first on cell of the turned bitmap is opposite to the last one of the bitmap. -/
lemma lastOn?_of_firstOn?_halfTurn (h : b.halfTurn.firstOn? = some c) :
    b.lastOn? = some (b.opposite c) := by
  obtain ⟨hon, hmin⟩ := firstOn?_spec h
  obtain ⟨hx, hy⟩ := lt_of_isOn hon
  refine lastOn?_eq_some_iff.mpr ⟨?_, fun x y hxy => ?_⟩
  · rwa [isOn_halfTurn (b := b) hx hy] at hon
  · obtain ⟨hx', hy'⟩ := lt_of_isOn hxy
    have hbefore := hmin _ _ ((isOn_opposite_iff (c := ⟨x, y⟩) hx' hy').mpr hxy)
    obtain ⟨hox, hoy⟩ := opposite_lt (b := b) ⟨x, y⟩
    have hreversed := (opposite_before_opposite_iff hox hoy hx hy).mpr hbefore
    rwa [opposite_opposite hx' hy'] at hreversed

/-! ### The extremes -/

/-- **The raster extremes.**  There is no first on cell, and no last one, exactly if every cell is
read as off.  Otherwise they are the cells read as on that come before, and after, all others; and
the last one is opposite to the first one of the bitmap turned by half a turn. -/
theorem raster_extremes (b : Bitmap) :
    (b.firstOn? = none
        ↔ ∀ x < b.width, ∀ y < b.height, b.get (.ofNat x) (.ofNat y) = .ok false)
    ∧ (b.lastOn? = none
        ↔ ∀ x < b.width, ∀ y < b.height, b.get (.ofNat x) (.ofNat y) = .ok false)
    ∧ (∀ c, b.firstOn? = some c ↔ b.Marks c ∧ ∀ d, b.Marks d → c.Before d)
    ∧ (∀ c, b.lastOn? = some c ↔ b.Marks c ∧ ∀ d, b.Marks d → d.Before c)
    ∧ b.halfTurn.toRows = (b.toRows.map List.reverse).reverse
    ∧ b.lastOn? = b.halfTurn.firstOn?.map b.opposite := by
  refine ⟨?_, ?_, fun c => ?_, fun c => ?_, b.toRows_halfTurn, ?_⟩
  · rw [firstOn?_eq_none_iff, forall_isOn_eq_false_iff]
  · rw [lastOn?_eq_none_iff, forall_isOn_eq_false_iff]
  · simp only [firstOn?_eq_some_iff, marks_iff]
    exact and_congr_right fun _ => ⟨fun h d => h d.x d.y, fun h x y => h ⟨x, y⟩⟩
  · simp only [lastOn?_eq_some_iff, marks_iff]
    exact and_congr_right fun _ => ⟨fun h d => h d.x d.y, fun h x y => h ⟨x, y⟩⟩
  · cases hfirst : b.halfTurn.firstOn? with
    | some c => rw [lastOn?_of_firstOn?_halfTurn hfirst, Option.map_some]
    | none =>
      rw [Option.map_none, lastOn?_eq_none_iff]
      refine b.isOn_eq_false_of_forall_lt fun x hx y hy => Bool.eq_false_iff.mpr fun hon => ?_
      have hturned := (isOn_opposite_iff (c := ⟨x, y⟩) hx hy).mpr hon
      rw [firstOn?_eq_none_iff.mp hfirst] at hturned
      cases hturned

end Bitmap

end MatrixSymbol
