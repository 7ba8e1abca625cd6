/-
The lattice of an image, step by step (`measurePureGrid`, section 3.4 of the specification).

Measuring an image chains four steps, each of which may end in a failure.  Here each step gets its
closed form, and from these follows what a lattice that was found has to satisfy.

* `Lattice.run_placed`, `Lattice.run_counted`, `Lattice.run_within`, `Lattice.run_measure_some`: the
  closed forms, without notes;
* `Lattice.bounds_ofCells`, `Lattice.run_within_ofCells`: bounds that enclose something stay as they
  are; `Lattice.lt_of_diagonal`: a diagonal that shows a pitch leads down to other dark pixels;
* `Lattice.Laid`: a lattice fits between bounds; `Lattice.Measured`: it is the one measured in an
  image; `Lattice.run_measure_eq_ok_iff`: measuring gives exactly the measured lattices;
* `Lattice.exists_run_measure`: measuring is never a fault, and its only kind of failure is that
  nothing was found;
* `Lattice.Laid.column_mem`, `Lattice.Laid.row_mem`: all samples lie between the bounds.
-/
import MatrixSymbol.Lattice
import MatrixSymbol.Proofs.Pitch
import MatrixSymbol.Proofs.Runs

namespace MatrixSymbol

namespace Lattice

variable (round : ℚ → ℚ)

/-! ### What a lattice has to satisfy -/

/-- Half a module, in whole pixels. -/
def nudge (pitch : ℚ) : ℤ := (round (pitch / 2)).floor

/-- The bounds between which the lattice of an image is laid: the raw ones, stretched if they
enclose nothing. -/
def bounds (image : Bitmap) (pitch : ℚ) (raw : Bounds) : Bounds :=
  if raw.isEmpty then raw.stretch (offset round pitch minModules) image.width image.height else raw

/-- The sides of a lattice between bounds: the counted ones, squared up. -/
def sides (pitch : ℚ) (b : Bounds) : ℤ × ℤ :=
  squareUp (modulesIn round b.columns pitch) (modulesIn round b.rows pitch)

/-- The samples of a number of columns between bounds. -/
def across (pitch : ℚ) (b : Bounds) (count : ℤ) : Fit :=
  fit round pitch (nudge round pitch) b.left b.right count

/-- The samples of a number of rows between bounds. -/
def down (pitch : ℚ) (b : Bounds) (count : ℤ) : Fit :=
  fit round pitch (nudge round pitch) b.top b.bottom count

/-- A lattice is laid between bounds: there are modules on both axes, and on neither of them do the
samples have to move back by more than half a module. -/
structure Laid (pitch : ℚ) (b : Bounds) (l : Lattice) : Prop where
  pitch_eq : l.pitch = pitch
  columns_pos : 0 < modulesIn round b.columns pitch
  rows_pos : 0 < modulesIn round b.rows pitch
  sides_eq : sides round pitch b = ((l.width : ℤ), (l.height : ℤ))
  across_fits : (across round pitch b l.width).isWrong (nudge round pitch) = false
  down_fits : (down round pitch b l.height).isWrong (nudge round pitch) = false
  left_eq : l.left = (across round pitch b l.width).start
  top_eq : l.top = (down round pitch b l.height).start

/-- A lattice is the one measured in an image, between the first and the last dark pixel and with
the pitch that is refined from the diagonal. -/
structure Measured (image : Bitmap) (first last : Cell) (diagonal : ℚ) (l : Lattice) : Prop where
  first_eq : image.firstOn? = some first
  last_eq : image.lastOn? = some last
  diagonal_eq : Pitch.measured? round image first.x first.y 1 1 = some diagonal
  pitch_eq : l.pitch = Pitch.refined round image first.x first.y diagonal
  encloses : (bounds round image l.pitch (.ofCells first last)).isEmpty = false
  laid : Laid round l.pitch (bounds round image l.pitch (.ofCells first last)) l

/-! ### Closed forms of the steps -/

variable {round}

/-- Bounds enclose something if the last pixel lies right of the first one and below it. -/
lemma isEmpty_ofCells {first last : Cell} (hx : first.x < last.x) (hy : first.y < last.y) :
    (Bounds.ofCells first last).isEmpty = false := by
  rw [Bounds.isEmpty, Bounds.ofCells, Bool.or_eq_false_iff, decide_eq_false_iff_not,
    decide_eq_false_iff_not]
  dsimp only
  omega

/-- Bounds that enclose something stay as they are. -/
lemma bounds_ofCells (image : Bitmap) (pitch : ℚ) {first last : Cell} (hx : first.x < last.x)
    (hy : first.y < last.y) :
    bounds round image pitch (.ofCells first last) = .ofCells first last := by
  rw [bounds, isEmpty_ofCells hx hy, if_neg Bool.false_ne_true]

/-- Placing fails on the first axis that has to move back too far. -/
lemma run_placed (pitch : ℚ) (b : Bounds) (w h : ℤ) (wanted : Bool) :
    ((placed round pitch b w h).run wanted).1
      = if (across round pitch b w).isWrong (nudge round pitch) then
          .error (.pastRightEdge (across round pitch b w).excess)
        else if (down round pitch b h).isWrong (nudge round pitch) then
          .error (.pastBottomEdge (down round pitch b h).excess)
        else .ok ⟨pitch, (across round pitch b w).start, (down round pitch b h).start, w.toNat,
          h.toNat⟩ := by
  cases hacross : (across round pitch b w).isWrong (nudge round pitch) with
  | true =>
    rw [across, nudge] at hacross
    simp only [placed, hacross, if_true]
    rfl
  | false =>
    cases hdown : (down round pitch b h).isWrong (nudge round pitch) <;>
      rw [down, nudge] at hdown <;> rw [across, nudge] at hacross <;>
      simp only [placed, hacross, hdown, if_true, if_false, Bool.false_eq_true] <;> rfl

/-- Counting fails if a side has no modules. -/
lemma run_counted (pitch : ℚ) (b : Bounds) (wanted : Bool) :
    ((counted round pitch b).run wanted).1
      = if modulesIn round b.columns pitch ≤ 0 ∨ modulesIn round b.rows pitch ≤ 0 then
          .error (.emptyGrid (modulesIn round b.columns pitch) (modulesIn round b.rows pitch))
        else ((placed round pitch b (sides round pitch b).1 (sides round pitch b).2).run
          wanted).1 := by
  simp only [counted]
  split_ifs <;> rfl

/-- Between the first and the last dark pixel, counting goes by the bounds that enclose
something. -/
lemma run_within (image : Bitmap) (pitch : ℚ) (raw : Bounds) (wanted : Bool) :
    ((within round image pitch raw).run wanted).1
      = if (bounds round image pitch raw).isEmpty then
          .error (.emptyBounds (bounds round image pitch raw).left
            (bounds round image pitch raw).top (bounds round image pitch raw).right
            (bounds round image pitch raw).bottom)
        else ((counted round pitch (bounds round image pitch raw)).run wanted).1 := by
  simp only [within, Traced.run_bind, bounds]
  by_cases hraw : raw.isEmpty
  · simp only [hraw, if_true, Traced.run_bind]
    split_ifs <;> rfl
  · simp only [hraw, if_false, Bool.false_eq_true]

/-- Between pixels of which the last lies right of the first one and below it, the lattice is the
one counted between them. -/
lemma run_within_ofCells (image : Bitmap) (pitch : ℚ) {first last : Cell} (hx : first.x < last.x)
    (hy : first.y < last.y) (wanted : Bool) :
    ((within round image pitch (.ofCells first last)).run wanted).1
      = ((counted round pitch (.ofCells first last)).run wanted).1 := by
  rw [run_within, bounds_ofCells image pitch hx hy, isEmpty_ofCells hx hy,
    if_neg Bool.false_ne_true]

lemma run_measure_none {image : Bitmap} (h : image.firstOn? = none) (wanted : Bool) :
    ((measure round image).run wanted).1 = .ok (.error .blankImage) := by
  rw [measure, h]
  rfl

/-- In an image with a dark pixel, the lattice comes from the pitch seen from the first one. -/
lemma run_measure_some {image : Bitmap} {first last : Cell} (hfirst : image.firstOn? = some first)
    (hlast : image.lastOn? = some last) (wanted : Bool) :
    ((measure round image).run wanted).1
      = .ok (match Pitch.measured? round image first.x first.y 1 1 with
          | some diagonal =>
            ((within round image (Pitch.refined round image first.x first.y diagonal)
              (.ofCells first last)).run wanted).1
          | none => .error (.brokenDiagonal (.ofNat first.x) (.ofNat first.y)
              (Pitch.seen image first.x first.y 1 1).transitions Pitch.transitions)) := by
  rw [measure, hfirst, hlast]
  refine (Attempt.run_bind_of_ok (Pitch.run_estimate round image first.x first.y wanted)).trans ?_
  cases Pitch.measured? round image first.x first.y 1 1 with
  | none => rfl
  | some diagonal => rfl

/-! ### Which lattices are found -/

/-- Squaring up keeps sides positive. -/
lemma squareUp_pos {w h : ℤ} (hw : 0 < w) (hh : 0 < h) :
    0 < (squareUp w h).1 ∧ 0 < (squareUp w h).2 := by
  simp only [squareUp]
  split <;> dsimp only <;> omega

/-- After squaring up, the sides differ by at most a fifth of the smaller one. -/
lemma natAbs_squareUp_le {w h : ℤ} (hw : 0 < w) (hh : 0 < h) :
    (((squareUp w h).1 - (squareUp w h).2).natAbs : ℤ)
      ≤ min (squareUp w h).1 (squareUp w h).2 / 5 := by
  simp only [squareUp]
  split <;> dsimp only <;> omega

/-- Counting between bounds finds exactly the lattices laid between them. -/
lemma run_counted_eq_ok_iff {pitch : ℚ} {b : Bounds} {l : Lattice} {wanted : Bool} :
    ((counted round pitch b).run wanted).1 = .ok l ↔ Laid round pitch b l := by
  rw [run_counted]
  constructor
  · intro h
    split_ifs at h with hempty
    rw [run_placed] at h
    split_ifs at h with hacross hdown
    rw [not_or, not_le, not_le] at hempty
    obtain ⟨hw, hh⟩ := squareUp_pos hempty.1 hempty.2
    obtain rfl := Except.ok.inj h
    have hwidth : ((sides round pitch b).1.toNat : ℤ) = (sides round pitch b).1 :=
      Int.toNat_of_nonneg hw.le
    have hheight : ((sides round pitch b).2.toNat : ℤ) = (sides round pitch b).2 :=
      Int.toNat_of_nonneg hh.le
    rw [Bool.not_eq_true] at hacross hdown
    refine ⟨rfl, hempty.1, hempty.2, ?_, ?_, ?_, ?_, ?_⟩ <;> dsimp only
    · rw [hwidth, hheight]
    · rw [hwidth, hacross]
    · rw [hheight, hdown]
    · rw [hwidth]
    · rw [hheight]
  · intro h
    rw [if_neg (by have := h.columns_pos; have := h.rows_pos; omega), run_placed, h.sides_eq,
      h.across_fits, h.down_fits, if_neg Bool.false_ne_true, if_neg Bool.false_ne_true,
      ← h.left_eq, ← h.top_eq, ← h.pitch_eq, Int.toNat_natCast, Int.toNat_natCast]

/-- The last pixel lies below the first one if the diagonal shows a pitch. -/
lemma lt_of_diagonal {image : Bitmap} {first last : Cell} {diagonal : ℚ}
    (hlast : image.lastOn? = some last)
    (hdiagonal : Pitch.measured? round image first.x first.y 1 1 = some diagonal) :
    first.y < last.y := by
  obtain ⟨i, j, hbelow, hon⟩ := Pitch.exists_isOn_below hdiagonal
  have hbefore := (Bitmap.lastOn?_spec hlast).2 i j hon
  simp only [Cell.Before] at hbefore
  omega

/-- **Measuring finds exactly the measured lattices.** -/
theorem run_measure_eq_ok_iff {image : Bitmap} {l : Lattice} {wanted : Bool} :
    ((measure round image).run wanted).1 = .ok (.ok l)
      ↔ ∃ first last diagonal, Measured round image first last diagonal l := by
  constructor
  · intro h
    cases hfirst : image.firstOn? with
    | none =>
      rw [run_measure_none hfirst] at h
      cases h
    | some first =>
      obtain ⟨last, hlast⟩ := Bitmap.exists_lastOn? hfirst
      rw [run_measure_some hfirst hlast] at h
      have h := Except.ok.inj h
      split at h
      · next diagonal hdiagonal =>
        rw [run_within] at h
        split_ifs at h with hempty
        have hlaid := run_counted_eq_ok_iff.mp h
        have hpitch := hlaid.pitch_eq
        rw [Bool.not_eq_true] at hempty
        rw [← hpitch] at hempty hlaid
        exact ⟨first, last, diagonal, hfirst, hlast, hdiagonal, hpitch, hempty, hlaid⟩
      · cases h
  · rintro ⟨first, last, diagonal, h⟩
    have hempty := h.encloses
    have hlaid := (@run_counted_eq_ok_iff round _ _ _ wanted).mpr h.laid
    rw [h.pitch_eq] at hempty hlaid
    rw [run_measure_some h.first_eq h.last_eq, h.diagonal_eq]
    dsimp only
    rw [run_within, hempty, if_neg Bool.false_ne_true, hlaid]

/-- All that can be said against bounds is that nothing was found between them. -/
lemma kind_of_run_within {image : Bitmap} {pitch : ℚ} {raw : Bounds} {wanted : Bool}
    {failure : Failure} (h : ((within round image pitch raw).run wanted).1 = .error failure) :
    failure.kind = .notFound := by
  rw [run_within] at h
  split_ifs at h
  · obtain rfl := Except.error.inj h
    rfl
  · rw [run_counted] at h
    split_ifs at h
    · obtain rfl := Except.error.inj h
      rfl
    · rw [run_placed] at h
      split_ifs at h <;> obtain rfl := Except.error.inj h <;> rfl

/-- **Measuring is never a fault**, and a failure always says that nothing was found. -/
theorem exists_run_measure (image : Bitmap) (wanted : Bool) :
    ∃ answer, ((measure round image).run wanted).1 = .ok answer
      ∧ ∀ failure, answer = .error failure → failure.kind = .notFound := by
  cases hfirst : image.firstOn? with
  | none =>
    refine ⟨_, run_measure_none hfirst wanted, fun failure h => ?_⟩
    obtain rfl := Except.error.inj h
    rfl
  | some first =>
    obtain ⟨last, hlast⟩ := Bitmap.exists_lastOn? hfirst
    refine ⟨_, run_measure_some hfirst hlast wanted, fun failure h => ?_⟩
    split at h
    · exact kind_of_run_within h
    · obtain rfl := Except.error.inj h
      rfl

/-- A failure to measure says that nothing was found. -/
lemma kind_of_run_measure {image : Bitmap} {wanted : Bool} {failure : Failure}
    (h : ((measure round image).run wanted).1 = .ok (.error failure)) :
    failure.kind = .notFound := by
  obtain ⟨answer, hanswer, hkind⟩ := @exists_run_measure round image wanted
  rw [h] at hanswer
  exact hkind failure (Except.ok.inj hanswer).symm

/-! ### Samples lie between the bounds -/

/-- The samples of one axis that does not have to move back too far: they begin inside the bounds,
and the last one is inside too. -/
lemma fit_mem {pitch : ℚ} {n low high count : ℤ} (hn : 0 ≤ n)
    (h : (fit round pitch n low high count).isWrong n = false) :
    low ≤ (fit round pitch n low high count).start
      ∧ (fit round pitch n low high count).start + offset round pitch (count - 1) ≤ high := by
  unfold Fit.isWrong fit at h
  dsimp only at h
  rw [Bool.and_eq_false_iff, decide_eq_false_iff_not, decide_eq_false_iff_not] at h
  unfold fit
  dsimp only
  split <;> omega

/-- The bounds of the lattice begin where the raw ones do. -/
lemma bounds_left (image : Bitmap) (pitch : ℚ) (raw : Bounds) :
    (bounds round image pitch raw).left = raw.left := by
  unfold bounds
  split <;> rfl

lemma bounds_top (image : Bitmap) (pitch : ℚ) (raw : Bounds) :
    (bounds round image pitch raw).top = raw.top := by
  unfold bounds
  split <;> rfl

/-- Stretching does not lead out of the image. -/
lemma bounds_right_lt {image : Bitmap} (pitch : ℚ) {raw : Bounds}
    (h : raw.right < image.width) : (bounds round image pitch raw).right < image.width := by
  unfold bounds Bounds.stretch
  split
  · dsimp only
    split <;> omega
  · exact h

lemma bounds_bottom_lt {image : Bitmap} (pitch : ℚ) {raw : Bounds}
    (h : raw.bottom < image.height) : (bounds round image pitch raw).bottom < image.height := by
  unfold bounds Bounds.stretch
  split
  · dsimp only
    split <;> omega
  · exact h

variable (hr : IsRounding round)
include hr

/-- Later samples lie farther on. -/
lemma offset_mono {pitch : ℚ} (hp : 0 ≤ pitch) {j k : ℤ} (hj : 0 ≤ j) (hjk : j ≤ k) :
    offset round pitch j ≤ offset round pitch k := by
  have hj' : (0 : ℚ) ≤ j := by exact_mod_cast hj
  have hjk' : (j : ℚ) ≤ k := by exact_mod_cast hjk
  exact Rat.floor_monotone (hr.mono (by positivity) (mul_le_mul_of_nonneg_right hjk' hp))

lemma offset_nonneg {pitch : ℚ} (hp : 0 ≤ pitch) {k : ℤ} (hk : 0 ≤ k) :
    0 ≤ offset round pitch k := by
  have hk' : (0 : ℚ) ≤ k := by exact_mod_cast hk
  exact Rat.le_floor_iff.mpr (hr.nonneg (by positivity))

lemma nudge_nonneg {pitch : ℚ} (hp : 0 ≤ pitch) : 0 ≤ nudge round pitch :=
  Rat.le_floor_iff.mpr (hr.nonneg (by positivity))

/-- The samples of an axis lie between its bounds: the first and the last one do, and the others lie
between these. -/
lemma start_add_offset_mem {pitch : ℚ} (hp : 0 ≤ pitch) {low high : ℤ} {count k : ℕ}
    (h : (fit round pitch (nudge round pitch) low high count).isWrong (nudge round pitch) = false)
    (hk : k < count) :
    low ≤ (fit round pitch (nudge round pitch) low high count).start + offset round pitch k
      ∧ (fit round pitch (nudge round pitch) low high count).start + offset round pitch k
        ≤ high := by
  obtain ⟨hlow, hhigh⟩ := fit_mem (nudge_nonneg hr hp) h
  have hfirst := offset_nonneg hr hp (k := k) (by omega)
  have hlast := offset_mono hr hp (j := k) (k := count - 1) (by omega) (by omega)
  omega

variable {b : Bounds} {l : Lattice} (hp : 0 ≤ l.pitch) (h : Laid round l.pitch b l)
include hp h

/-- **Every column is sampled between the bounds.** -/
theorem Laid.column_mem {x : ℕ} (hx : x < l.width) :
    b.left ≤ l.column round x ∧ l.column round x ≤ b.right := by
  rw [column, h.left_eq]
  exact start_add_offset_mem hr hp h.across_fits hx

/-- **Every row is sampled between the bounds.** -/
theorem Laid.row_mem {y : ℕ} (hy : y < l.height) :
    b.top ≤ l.row round y ∧ l.row round y ≤ b.bottom := by
  rw [row, h.top_eq]
  exact start_add_offset_mem hr hp h.down_fits hy

omit hr hp

/-- The sides are the counted ones, squared up. -/
lemma Laid.squareUp_counted :
    squareUp (modulesIn round b.columns l.pitch) (modulesIn round b.rows l.pitch)
      = ((l.width : ℤ), (l.height : ℤ)) := h.sides_eq

/-- The sides are positive. -/
lemma Laid.sides_pos : 0 < l.width ∧ 0 < l.height := by
  obtain ⟨hw, hh⟩ := squareUp_pos h.columns_pos h.rows_pos
  rw [h.squareUp_counted] at hw hh
  exact ⟨Int.natCast_pos.mp hw, Int.natCast_pos.mp hh⟩

/-- The sides differ by at most a fifth of the smaller one. -/
lemma Laid.natAbs_sides_le :
    ((l.width : ℤ) - l.height).natAbs ≤ min l.width l.height / 5 := by
  have hle := natAbs_squareUp_le h.columns_pos h.rows_pos
  rw [h.squareUp_counted] at hle
  dsimp only at hle
  omega

end Lattice

end MatrixSymbol
