/-
The vote in the middle of a drawn module.

Without noise the vote for a module goes over pixels of the module and, where modules are even and
small, of its neighbours to the right and below.  For modules of one pixel or at least three they
never outvote it.  A module two pixels wide has four pixels of its own among at most nine, so that
it is still read if it is dark, but not if it is light and both these neighbours are dark.

* `Modules.isFlanked`: the neighbours right of a module and below it are dark;
* `Drawn.middle_lt`, `Drawn.read_middle`: the middle of a module is a pixel, and what is read there;
* `Drawing.colour_render`: the same from modules to colours, for every drawing;
* `Drawing.colour_render_corner`: two dark modules outvote the light one between them.
-/
import MatrixSymbol.Proofs.Drawing
import MatrixSymbol.Proofs.Votes

namespace MatrixSymbol

/-- Whether the neighbours of a module to the right and below are both dark. -/
def Modules.isFlanked (modules : Modules) (x y : ℕ) : Bool :=
  decide (x + 1 < modules.columns) && modules.isDark (x + 1) y && modules.isDark x (y + 1)

/-! ### Middles of drawn modules -/

namespace Drawn

variable {modules : Modules} {q : ℕ} {image : Bitmap}

/-- The drawing has room for every module up to its last pixel. -/
lemma block_le {m : ℕ} (h : Drawn modules m q image) {x y : ℕ} (hx : x < modules.columns)
    (hy : y < modules.length) : q + x * m + m ≤ image.width ∧ q + y * m + m ≤ image.height := by
  have hxm : x * m + m ≤ modules.columns * m := by
    rw [← Nat.succ_mul]
    exact Nat.mul_le_mul_right m hx
  have hym : y * m + m ≤ modules.length * m := by
    rw [← Nat.succ_mul]
    exact Nat.mul_le_mul_right m hy
  rw [h.width_eq, h.height_eq, Drawing.side, Drawing.side]
  omega

/-- The middle of a module is a pixel. -/
lemma middle_lt {m : ℕ} (h : Drawn modules m q image) {x y : ℕ} (hx : x < modules.columns)
    (hy : y < modules.length) :
    q + x * m + m / 2 < image.width ∧ q + y * m + m / 2 < image.height := by
  have hm := h.size_pos
  have hblock := h.block_le hx hy
  omega

/-- A module two pixels wide is read as dark if it is dark, or if both its neighbours to the right
and below are. -/
lemma read_pair (h : Drawn modules 2 q image) {x y : ℕ} (hx : x < modules.columns)
    (hy : y < modules.length) :
    Vote.read image ((q + x * 2 + 1 : ℕ) : ℤ) ((q + y * 2 + 1 : ℕ) : ℤ) 2
      = (modules.isDark x y || modules.isFlanked x y) := by
  obtain ⟨hwidth, hheight⟩ := h.block_le hx hy
  have hshade : ∀ i j, image.isOn (q + x * 2 + i) (q + y * 2 + j)
      = (decide (x + i / 2 < modules.columns) && modules.isDark (x + i / 2) (y + j / 2)) := by
    intro i j
    rw [Nat.add_assoc, Nat.add_assoc q, h.isOn_offset, show (x * 2 + i) / 2 = x + i / 2 by omega,
      show (y * 2 + j) / 2 = y + j / 2 by omega]
  have hpoll := @Vote.poll_pair image _ _ hwidth hheight
    (fun i j => decide (x + i < modules.columns) && modules.isDark (x + i) (y + j)) hshade
  have hreach : min Vote.maxReach ((2 : ℤ) / 2).toNat = 1 := rfl
  rw [Vote.read, if_neg (by norm_num), hreach, hpoll]
  simp only [Nat.add_zero, hx, decide_true, Bool.true_and, Modules.isFlanked]

/-- **What is read in the middle of a module** is its colour, whatever lies next to it, unless it is
two pixels wide, light, and flanked by dark ones. -/
theorem read_middle {m : ℕ} (h : Drawn modules m q image) {x y : ℕ} (hx : x < modules.columns)
    (hy : y < modules.length) :
    Vote.read image ((q + x * m + m / 2 : ℕ) : ℤ) ((q + y * m + m / 2 : ℕ) : ℤ) m
      = (modules.isDark x y || (m == 2 && modules.isFlanked x y)) := by
  by_cases hm : m = 2
  · subst hm
    exact h.read_pair hx hy
  · have hsize : m = 1 ∨ 3 ≤ m := by have := h.size_pos; omega
    obtain ⟨hwidth, hheight⟩ := h.block_le hx hy
    rw [beq_false_of_ne hm, Bool.false_and, Bool.or_false]
    exact Vote.read_block hsize hwidth hheight
      fun i j hi hi' hj hj' => h.isOn_module hx hi hi' hj hj'

/-- The vote in the middle of a module is never a fault. -/
lemma colour_middle {m : ℕ} (h : Drawn modules m q image) {x y : ℕ} (hx : x < modules.columns)
    (hy : y < modules.length) :
    Vote.colour image (.ofNat (q + x * m + m / 2)) (.ofNat (q + y * m + m / 2)) (.ofNat m)
      = .ok (modules.isDark x y || (m == 2 && modules.isFlanked x y)) := by
  obtain ⟨hwidth, hheight⟩ := h.middle_lt hx hy
  refine (Vote.colour_ofInt image (q + x * m + m / 2 : ℕ) (q + y * m + m / 2 : ℕ) m).trans ?_
  rw [Vote.around_eq_read (by omega) (by omega), h.read_middle hx hy]

end Drawn

/-! ### Drawings of any size -/

namespace Drawing

/-- **A module is read off its drawing**, for modules of any size inside a margin of any width,
whenever there is room for the drawing: the vote in its middle gives its colour.  The one exception
is a light module two pixels wide whose neighbours to the right and below are both dark; it is read
as dark. -/
theorem colour_render (modules : Modules) (size margin : ℕ) (hsize : 1 ≤ size)
    (hcolumns : 0 < modules.columns) :
    if side modules.columns size margin * side modules.length size margin ≤ Bitmap.capacity then
      ∃ image, render modules (.ofNat size) (.ofNat margin) = .ok image
        ∧ ∀ x < modules.columns, ∀ y < modules.length,
          Vote.colour image (.ofNat (margin + x * size + size / 2))
              (.ofNat (margin + y * size + size / 2)) (.ofNat size)
            = .ok (modules.isDark x y || (size == 2 && modules.isFlanked x y))
    else ∃ fault, render modules (.ofNat size) (.ofNat margin) = .error fault := by
  split
  · next fits =>
    obtain ⟨image, hrender, hdrawn⟩ := render_eq hsize hcolumns fits
    exact ⟨image, hrender, fun x hx y hy => hdrawn.colour_middle hx hy⟩
  · next fits => exact render_eq_error hsize hcolumns fits

/-- Two dark modules that meet at a corner. -/
def corner : Modules := [[false, true], [true, false]]

/-- At a size of four pixels the light module between them is read as light, although the vote
reaches into both. -/
theorem colour_render_four :
    1 ≤ 4 ∧ 0 < corner.columns ∧ ∃ image, render corner (.ofNat 4) (.ofNat 0) = .ok image
      ∧ Vote.colour image (.ofNat 2) (.ofNat 2) (.ofNat 4) = .ok false
      ∧ Vote.colour image (.ofNat 6) (.ofNat 2) (.ofNat 4) = .ok true := by
  have h := colour_render corner 4 0 (by decide) (by decide)
  rw [if_pos (by decide)] at h
  obtain ⟨image, hrender, hcolour⟩ := h
  exact ⟨by decide, by decide, image, hrender, hcolour 0 (by decide) 0 (by decide),
    hcolour 1 (by decide) 0 (by decide)⟩

/-- **Two dark modules outvote the light one between them** if modules are two pixels wide: not
every module is read off its drawing. -/
theorem colour_render_corner :
    ∃ image, render corner (.ofNat 2) (.ofNat 0) = .ok image
      ∧ Vote.colour image (.ofNat (0 + 0 * 2 + 2 / 2)) (.ofNat (0 + 0 * 2 + 2 / 2)) (.ofNat 2)
        = .ok true
      ∧ corner.isDark 0 0 = false := by
  obtain ⟨image, hrender, hdrawn⟩ := @render_eq corner 2 0 (by decide) (by decide) (by decide)
  exact ⟨image, hrender, hdrawn.colour_middle (x := 0) (y := 0) (by decide) (by decide), rfl⟩

end Drawing

end MatrixSymbol
