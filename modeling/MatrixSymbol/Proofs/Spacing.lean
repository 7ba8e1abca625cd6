/-
The samples of a measured lattice are evenly spaced and cover the symbol (`measurePureGrid`, section
3.4 of the specification).

Every sample is placed by its own product with the pitch, so that what is lost by going down to
whole pixels does not add up along an axis.  Nothing is rounded here otherwise.

* `Lattice.offset_succ`, `Lattice.offset_succ_of_whole`: from one sample to the next it is the
  pitch, in whole pixels, and at times one more;
* `Lattice.sub_lt_of_counted`: if all counted modules are sampled, the last sample is less than a
  module and a pixel short of the bound;
* `Lattice.Regular`, `Lattice.regular_fit`: how one axis is sampled;
* `Lattice.measure_regular`: both axes of every measured lattice are sampled like this.
-/
import MatrixSymbol.Proofs.Checks

namespace MatrixSymbol

namespace Lattice

variable {pitch : ℚ}

/-! ### One axis -/

/-- From one sample to the next it is the pitch in whole pixels, or one more. -/
lemma offset_succ (pitch : ℚ) (k : ℤ) :
    offset id pitch (k + 1) = offset id pitch k + ⌊pitch⌋
      ∨ offset id pitch (k + 1) = offset id pitch k + ⌊pitch⌋ + 1 := by
  have hsucc : offset id pitch (k + 1) = ⌊k * pitch + pitch⌋ := by
    rw [offset, id, Int.cast_add, Int.cast_one, add_one_mul]
    rfl
  have hhere : offset id pitch k = ⌊k * pitch⌋ := rfl
  have hlow := Int.le_floor_add (k * pitch) pitch
  have hhigh := Int.le_floor_add_floor (k * pitch) pitch
  omega

/-- It is always the pitch if this is a whole number. -/
lemma offset_succ_of_whole {z : ℤ} (h : pitch = z) (k : ℤ) :
    offset id pitch (k + 1) = offset id pitch k + z := by
  have hoffset : ∀ j : ℤ, offset id pitch j = j * z := by
    intro j
    rw [offset, id, h, ← Int.cast_mul]
    exact Rat.floor_intCast _
  rw [hoffset, hoffset, add_one_mul]

/-- If all counted modules are sampled, the last sample is less than a module and a pixel short of
the bound: the count is the nearest one, so that at most half a module is left out behind the last
one, and going down to whole pixels loses less than two of them. -/
lemma sub_lt_of_counted (hp : 0 < pitch) {low high count : ℤ}
    (hcount : modulesIn id (high - low + 1) pitch = count) :
    (high - ((fit id pitch (nudge id pitch) low high count).start
      + offset id pitch (count - 1)) : ℤ) < pitch + 1 := by
  have hstart := @start_fit id pitch (nudge id pitch) low high count
  have hexcess : (fit id pitch (nudge id pitch) low high count).excess
      = low + nudge id pitch + offset id pitch (count - 1) - high := rfl
  by_cases hback : 0 < (fit id pitch (nudge id pitch) low high count).excess
  · -- samples that have moved back end on the bound itself
    have hlast : high - ((fit id pitch (nudge id pitch) low high count).start
        + offset id pitch (count - 1)) = 0 := by omega
    rw [hlast, Int.cast_zero]
    linarith
  · have hnearest : ((high - low + 1 : ℤ) / pitch + 1 / 2 : ℚ) < count + 1 := by
      rw [← hcount]
      exact Int.lt_floor_add_one _
    have hspan : ((high - low + 1 : ℤ) : ℚ) < (count + 1 / 2) * pitch := by
      rw [← div_lt_iff₀ hp]
      linarith
    have hhalf : pitch / 2 < nudge id pitch + 1 := Int.lt_floor_add_one _
    have hlast : ((count - 1 : ℤ) * pitch : ℚ) < offset id pitch (count - 1) + 1 :=
      Int.lt_floor_add_one _
    rw [show (fit id pitch (nudge id pitch) low high count).start = low + nudge id pitch by omega]
    push_cast at hspan hlast ⊢
    linarith

/-- How an axis is sampled between two bounds, on which so many modules are counted: the first of
the samples is half a module inside the symbol or a pixel less, from each to the next it is the
pitch in whole pixels or one more, exactly the pitch if this is a whole number, and if there is one
for each counted module, the last of them is less than a module and a pixel short of the bound. -/
structure Regular (pitch : ℚ) (low high counted : ℤ) (count : ℕ) (sample : ℕ → ℤ) : Prop where
  first : sample 0 - low = ⌊pitch / 2⌋ ∨ sample 0 - low = ⌊pitch / 2⌋ - 1
  step : ∀ k, sample (k + 1) - sample k = ⌊pitch⌋ ∨ sample (k + 1) - sample k = ⌊pitch⌋ + 1
  whole : ∀ z : ℤ, pitch = z → ∀ k, sample (k + 1) - sample k = z
  covers : counted = count → (high - sample (count - 1) : ℤ) < pitch + 1

/-- **An axis is sampled evenly**, if no more modules are sampled than are counted. -/
theorem regular_fit (hp : 0 < pitch) {low high : ℤ} {count : ℕ} (hpos : 0 < count)
    (hcount : (count : ℤ) ≤ modulesIn id (high - low + 1) pitch) {sample : ℕ → ℤ}
    (hsample : ∀ k : ℕ, sample k
      = (fit id pitch (nudge id pitch) low high count).start + offset id pitch k) :
    Regular pitch low high (modulesIn id (high - low + 1) pitch) count sample where
  first := by
    have hzero : offset id pitch 0 = 0 := by rw [offset, Int.cast_zero, zero_mul]; rfl
    have hstart := start_fit_id hp hcount
    have hfirst := hsample 0
    rw [Nat.cast_zero, hzero] at hfirst
    omega
  step := by
    intro k
    have hnext := hsample (k + 1)
    rw [Nat.cast_succ] at hnext
    have hstep := offset_succ pitch k
    have hhere := hsample k
    omega
  whole := by
    intro z hz k
    rw [hsample, hsample, Nat.cast_succ, offset_succ_of_whole hz]
    omega
  covers := by
    intro hall
    rw [hsample, Nat.cast_sub hpos, Nat.cast_one]
    exact sub_lt_of_counted hp hall

/-! ### Both axes -/

/-- **Measured lattices are regular.**  Without rounding, a measured lattice lies between bounds
that begin at the first dark pixel, and both of its axes are sampled evenly: neither going down to
whole pixels nor the moves by which the samples are placed add up along an axis, and if a side was
not reduced to the other one, its samples cover the symbol up to the bound. -/
theorem measure_regular {image : Bitmap} {wanted : Bool} {l : Lattice}
    (h : ((measure id image).run wanted).1 = .ok (.ok l)) :
    ∃ first last right bottom, image.firstOn? = some first ∧ image.lastOn? = some last
      ∧ bounds id image l.pitch (.ofCells first last) = ⟨first.x, first.y, right, bottom⟩
      ∧ Regular l.pitch first.x right (modulesIn id (right - first.x + 1) l.pitch) l.width
        (l.column id)
      ∧ Regular l.pitch first.y bottom (modulesIn id (bottom - first.y + 1) l.pitch) l.height
        (l.row id) := by
  obtain ⟨first, last, diagonal, hmeasured⟩ := run_measure_eq_ok_iff.mp h
  have hp : 0 < l.pitch := by linarith [hmeasured.half_le_pitch isRounding_id]
  obtain ⟨hleft, htop, -, -⟩ := hmeasured.bounds_mem
  have hlaid := hmeasured.laid
  obtain ⟨hw, hh⟩ := hlaid.sides_pos
  obtain ⟨hwidth, hheight⟩ := hlaid.sides_le
  have hcolumn := hlaid.left_eq
  have hrow := hlaid.top_eq
  generalize hb : bounds id image l.pitch (.ofCells first last) = b at *
  obtain ⟨left, top, right, bottom⟩ := b
  obtain rfl : left = first.x := hleft
  obtain rfl : top = first.y := htop
  refine ⟨first, last, right, bottom, hmeasured.first_eq, hmeasured.last_eq, hb, ?_, ?_⟩
  · refine regular_fit hp hw hwidth fun k => ?_
    rw [column, hcolumn]
    rfl
  · refine regular_fit hp hh hheight fun k => ?_
    rw [row, hrow]
    rfl

/-- The first modules of a finder pattern's diagonal, each of them eleven sevenths of a pixel wide,
in an image that ends two pixels behind them. -/
def uneven : Bitmap :=
  Bitmap.ofFn 13 13 (by decide) (by decide) (by decide) fun x y =>
    x * 7 / 11 == y * 7 / 11 && Modules.finderDiagonal.getD (x * 7 / 11) false

/-- Its seven columns and rows are sampled one or two pixels apart, up to a pixel before the last
dark one. -/
theorem measure_regular_uneven :
    ((measure id uneven).run true).1 = .ok (.ok ⟨11 / 7, 0, 0, 7, 7⟩)
    ∧ uneven.firstOn? = some ⟨0, 0⟩ ∧ uneven.lastOn? = some ⟨10, 10⟩
    ∧ Regular (11 / 7) 0 10 7 7 (column id ⟨11 / 7, 0, 0, 7, 7⟩)
    ∧ Regular (11 / 7) 0 10 7 7 (row id ⟨11 / 7, 0, 0, 7, 7⟩) := by
  have hmeasure : ((measure id uneven).run true).1 = .ok (.ok ⟨11 / 7, 0, 0, 7, 7⟩) := by
    decide +kernel
  have hfirst : uneven.firstOn? = some ⟨0, 0⟩ := by decide +kernel
  have hlast : uneven.lastOn? = some ⟨10, 10⟩ := by decide +kernel
  obtain ⟨first, last, right, bottom, hfirst', hlast', hbounds, hcolumns, hrows⟩ :=
    measure_regular hmeasure
  obtain rfl := Option.some.inj (hfirst.symm.trans hfirst')
  obtain rfl := Option.some.inj (hlast.symm.trans hlast')
  rw [bounds_ofCells uneven _ (by decide) (by decide), Bounds.ofCells, Bounds.mk.injEq] at hbounds
  obtain ⟨-, -, rfl, rfl⟩ := hbounds
  have hcounted : modulesIn id (10 - 0 + 1) (11 / 7) = 7 := by decide +kernel
  exact ⟨hmeasure, hfirst, hlast, hcounted ▸ hcolumns, hcounted ▸ hrows⟩

end Lattice

end MatrixSymbol
