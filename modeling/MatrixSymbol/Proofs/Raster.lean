/-
The first and the last on cell of a bitmap, as extremes of the row order (`getTopLeftOnBit` and
`getBottomRightOnBit`, section 2 of the specification).

Cells are stored row by row, so that the order of their places in storage is the lexicographic order
of row and column.

* `Cell.Before`: the row order; `Cell.before_iff_place`: it is the order of the places;
* `Bitmap.firstOn?_eq_some_iff`, `Bitmap.lastOn?_eq_some_iff`: the first (last) on cell is the one
  on cell that comes before (after) all others;
* `Bitmap.firstOn?_eq_none_iff`, `Bitmap.lastOn?_eq_none_iff`: there is none exactly in a bitmap
  with every cell off.
-/
import Mathlib.Tactic
import MatrixSymbol.Bitmap.Basic

namespace MatrixSymbol

/-! ### The row order -/

/-- A cell comes before another one, row by row, or is the same. -/
def Cell.Before (a b : Cell) : Prop := a.y < b.y ∨ a.y = b.y ∧ a.x ≤ b.x

namespace Cell

lemma Before.antisymm {a b : Cell} (hab : a.Before b) (hba : b.Before a) : a = b := by
  obtain ⟨ax, ay⟩ := a
  obtain ⟨bx, byy⟩ := b
  simp only [Before] at hab hba
  rw [Cell.mk.injEq]
  omega

/-- The row order of cells in one bitmap is the order of their places. -/
lemma before_iff_place {w : ℕ} {a b : Cell} (ha : a.x < w) (hb : b.x < w) :
    a.Before b ↔ a.y * w + a.x ≤ b.y * w + b.x := by
  constructor
  · rintro (hlt | ⟨heq, hle⟩)
    · have hrow : (a.y + 1) * w ≤ b.y * w := Nat.mul_le_mul_right _ hlt
      rw [Nat.succ_mul] at hrow
      omega
    · rw [heq]
      omega
  · intro hle
    have hrow : a.y ≤ b.y := by
      have := Nat.div_le_div_right (c := w) hle
      rwa [Bitmap.place_div ha, Bitmap.place_div hb] at this
    rcases hrow.lt_or_eq with hlt | heq
    · exact Or.inl hlt
    · rw [heq] at hle
      exact Or.inr ⟨heq, by omega⟩

end Cell

namespace Bitmap

variable {b : Bitmap} {c : Cell}

/-! ### Places -/

/-- Only cells inside the bitmap are on. -/
lemma lt_of_isOn {x y : ℕ} (h : b.isOn x y = true) : x < b.width ∧ y < b.height := by
  simp only [isOn, Bool.and_eq_true, decide_eq_true_eq] at h
  exact h.1

/-- If there is room for all cells, there is room for those along either side. -/
lemma sides_le_of_fits {w h : ℕ} (hw : 0 < w) (hh : 0 < h) (fits : w * h ≤ capacity) :
    w ≤ capacity ∧ h ≤ capacity :=
  ⟨(Nat.le_mul_of_pos_right w hh).trans fits, (Nat.le_mul_of_pos_left h hw).trans fits⟩

/-- So the sides are among the natural numbers that binary64 tells apart. -/
lemma lt_of_fits {w h : ℕ} (hw : 0 < w) (hh : 0 < h) (fits : w * h ≤ capacity) :
    w < 2 ^ 53 ∧ h < 2 ^ 53 := by
  obtain ⟨hwidth, hheight⟩ := sides_le_of_fits hw hh fits
  have hcapacity : capacity < 2 ^ 53 := by decide
  exact ⟨hwidth.trans_lt hcapacity, hheight.trans_lt hcapacity⟩

/-- Neither side of a bitmap is longer than the number of cells that can be stored. -/
lemma sides_le_capacity (b : Bitmap) : b.width ≤ capacity ∧ b.height ≤ capacity :=
  sides_le_of_fits b.width_pos b.height_pos b.size_le

lemma cellAt_x_lt (i : ℕ) : (b.cellAt i).x < b.width := Nat.mod_lt _ b.width_pos

/-- A cell is at its place. -/
lemma cellAt_place {x : ℕ} (hx : x < b.width) (y : ℕ) : b.cellAt (y * b.width + x) = ⟨x, y⟩ := by
  rw [cellAt, place_mod hx, place_div hx]

/-- A place is that of its cell. -/
lemma place_cellAt (i : ℕ) : (b.cellAt i).y * b.width + (b.cellAt i).x = i := by
  rw [cellAt, Nat.mul_comm]
  exact Nat.div_add_mod i b.width

/-- What is stored at a place is the view of its cell. -/
lemma getD_eq_isOn {i : ℕ} (hi : i < b.cells.size) :
    b.cells.getD i false = b.isOn (b.cellAt i).x (b.cellAt i).y := by
  have hy : (b.cellAt i).y < b.height := Nat.div_lt_of_lt_mul (b.size_cells ▸ hi)
  simp only [isOn, cellAt_x_lt, hy, decide_true, Bool.true_and, place_cellAt]

lemma place_lt_size {x y : ℕ} (hx : x < b.width) (hy : y < b.height) :
    y * b.width + x < b.cells.size := b.size_cells ▸ place_lt hx hy

/-! ### The first on cell -/

/-- The first on cell is on and comes before every other one. -/
lemma firstOn?_spec (h : b.firstOn? = some c) :
    b.isOn c.x c.y = true ∧ ∀ x y, b.isOn x y = true → c.Before ⟨x, y⟩ := by
  obtain ⟨i, hfind, rfl⟩ := Option.map_eq_some_iff.mp h
  obtain ⟨hi, hon, hmin⟩ := Array.findIdx?_eq_some_iff_getElem.mp hfind
  constructor
  · rw [← getD_eq_isOn hi, Array.getD, dif_pos hi]
    exact hon
  · intro x y hxy
    obtain ⟨hx, hy⟩ := lt_of_isOn hxy
    rw [Cell.before_iff_place (cellAt_x_lt i) hx, place_cellAt]
    by_contra hlt
    rw [isOn_eq_getElem b hx hy] at hxy
    exact hmin (y * b.width + x) (not_le.mp hlt) hxy

/-- There is no first on cell exactly if every cell is off. -/
theorem firstOn?_eq_none_iff : b.firstOn? = none ↔ ∀ x y, b.isOn x y = false := by
  rw [firstOn?, Option.map_eq_none_iff, Array.findIdx?_eq_none_iff]
  constructor
  · intro hoff x y
    by_contra hon
    rw [Bool.not_eq_false] at hon
    obtain ⟨hx, hy⟩ := lt_of_isOn hon
    rw [isOn_eq_getElem b hx hy] at hon
    have := hoff _ (Array.getElem_mem (place_lt_size hx hy))
    rw [hon] at this
    cases this
  · intro hoff v hv
    obtain ⟨i, hi, rfl⟩ := Array.mem_iff_getElem.mp hv
    have := getD_eq_isOn hi
    rw [hoff, Array.getD, dif_pos hi] at this
    exact this

/-- **The first on cell** is the on cell that comes before all others. -/
theorem firstOn?_eq_some_iff :
    b.firstOn? = some c
      ↔ b.isOn c.x c.y = true ∧ ∀ x y, b.isOn x y = true → c.Before ⟨x, y⟩ := by
  refine ⟨firstOn?_spec, ?_⟩
  rintro ⟨hon, hmin⟩
  cases hfirst : b.firstOn? with
  | none =>
    rw [firstOn?_eq_none_iff.mp hfirst] at hon
    cases hon
  | some d =>
    obtain ⟨hdon, hdmin⟩ := firstOn?_spec hfirst
    exact congrArg some (Cell.Before.antisymm (hdmin _ _ hon) (hmin _ _ hdon))

/-! ### The last on cell -/

/-- The search from the end stops at the greatest place that holds an on cell. -/
lemma lastPlace?_eq_some {cells : Array Bool} {n i : ℕ} (h : lastPlace? cells n = some i) :
    i < n ∧ cells.getD i false = true ∧ ∀ j, i < j → j < n → cells.getD j false = false := by
  induction n with
  | zero => exact absurd h (by simp [lastPlace?])
  | succ n ih =>
    rw [lastPlace?] at h
    split at h
    · next hon =>
      obtain rfl : n = i := by simpa using h
      exact ⟨by omega, hon, fun j hij hj => by omega⟩
    · next hoff =>
      obtain ⟨hi, hon, hmax⟩ := ih h
      refine ⟨by omega, hon, fun j hij hj => ?_⟩
      rcases (show j ≤ n by omega).lt_or_eq with hlt | rfl
      · exact hmax j hij hlt
      · simpa using hoff

lemma lastPlace?_eq_none {cells : Array Bool} {n : ℕ} (h : lastPlace? cells n = none) :
    ∀ j < n, cells.getD j false = false := by
  induction n with
  | zero => exact fun j hj => absurd hj (Nat.not_lt_zero j)
  | succ n ih =>
    rw [lastPlace?] at h
    split at h
    · exact absurd h (by simp)
    · next hoff =>
      intro j hj
      rcases (show j ≤ n by omega).lt_or_eq with hlt | rfl
      · exact ih h j hlt
      · simpa using hoff

/-- The last on cell is on and comes after every other one. -/
lemma lastOn?_spec (h : b.lastOn? = some c) :
    b.isOn c.x c.y = true ∧ ∀ x y, b.isOn x y = true → Cell.Before ⟨x, y⟩ c := by
  obtain ⟨i, hlast, rfl⟩ := Option.map_eq_some_iff.mp h
  obtain ⟨hi, hon, hmax⟩ := lastPlace?_eq_some hlast
  rw [getD_eq_isOn hi] at hon
  refine ⟨hon, ?_⟩
  intro x y hxy
  obtain ⟨hx, hy⟩ := lt_of_isOn hxy
  rw [Cell.before_iff_place hx (cellAt_x_lt i), place_cellAt]
  by_contra hlt
  have hplace := place_lt_size hx hy
  have hoff := hmax (y * b.width + x) (not_le.mp hlt) hplace
  rw [getD_eq_isOn hplace, cellAt_place hx, hxy] at hoff
  cases hoff

/-- There is no last on cell exactly if every cell is off. -/
theorem lastOn?_eq_none_iff : b.lastOn? = none ↔ ∀ x y, b.isOn x y = false := by
  rw [lastOn?, Option.map_eq_none_iff]
  constructor
  · intro hnone x y
    by_contra hon
    rw [Bool.not_eq_false] at hon
    obtain ⟨hx, hy⟩ := lt_of_isOn hon
    have hoff := lastPlace?_eq_none hnone _ (place_lt_size hx hy)
    rw [getD_eq_isOn (place_lt_size hx hy), cellAt_place hx, hon] at hoff
    cases hoff
  · intro hoff
    cases hlast : lastPlace? b.cells b.cells.size with
    | none => rfl
    | some i =>
      obtain ⟨hi, hon, -⟩ := lastPlace?_eq_some hlast
      rw [getD_eq_isOn hi, hoff] at hon
      cases hon

/-- **The last on cell** is the on cell that comes after all others. -/
theorem lastOn?_eq_some_iff :
    b.lastOn? = some c
      ↔ b.isOn c.x c.y = true ∧ ∀ x y, b.isOn x y = true → Cell.Before ⟨x, y⟩ c := by
  refine ⟨lastOn?_spec, ?_⟩
  rintro ⟨hon, hmax⟩
  cases hlast : b.lastOn? with
  | none =>
    rw [lastOn?_eq_none_iff.mp hlast] at hon
    cases hon
  | some d =>
    obtain ⟨hdon, hdmax⟩ := lastOn?_spec hlast
    exact congrArg some (Cell.Before.antisymm (hmax _ _ hdon) (hdmax _ _ hon))

/-- Where there is a first on cell, there is a last one. -/
lemma exists_lastOn? (h : b.firstOn? = some c) : ∃ d, b.lastOn? = some d := by
  cases hlast : b.lastOn? with
  | none =>
    rw [firstOn?_eq_none_iff.mpr (lastOn?_eq_none_iff.mp hlast)] at h
    cases h
  | some d => exact ⟨d, rfl⟩

end Bitmap

end MatrixSymbol
