/-
Lattices finer than the pixels of their image (`measurePureGrid`, section 3.4 of the specification).

Nothing keeps the pitch of an image from being less than one pixel, for the fifth change of colour
may come after as few as five steps.  From one pixel on, there are no more modules than pixels, and
different modules are sampled at different pixels.  Below that, measuring still succeeds, but then
the first two modules are sampled at the same pixel.

* `Lattice.offset_lt_succ`, `Lattice.offset_lt_of_lt`: samples at least a pixel apart stay apart
  when their places are rounded and go down to whole pixels;
* `Lattice.modulesIn_le_span`, `Lattice.two_le_modulesIn`: how many modules are counted in a span,
  for a pitch from one pixel on and below;
* `Lattice.Resolved`, `Lattice.Blurred`: what becomes of a lattice in the one case and in the other;
* `Lattice.resolved_or_blurred`: the samples of a measured lattice are distinct exactly if its pitch
  is at least one pixel;
* `Lattice.measure_dotted`: an image on which they are not.
-/
import MatrixSymbol.Proofs.Spacing

namespace MatrixSymbol

namespace Lattice

variable {round : ℚ → ℚ} {pitch : ℚ}

/-! ### One axis -/

section Rounding

variable (hr : IsRounding round)
include hr

/-- The first module is not offset. -/
lemma offset_zero (pitch : ℚ) : offset round pitch 0 = 0 := by
  rw [offset, Int.cast_zero, zero_mul, hr.zero]
  rfl

/-- From one pixel on, no more modules are counted than there are pixels. -/
lemma modulesIn_le_span (hp : 1 ≤ pitch) {span : ℤ} (hspan : 0 ≤ span)
    (hle : span ≤ Bitmap.capacity) : modulesIn round span pitch ≤ span := by
  obtain ⟨s, rfl⟩ := Int.eq_ofNat_of_zero_le hspan
  rw [Bitmap.capacity] at hle
  have hs : (0 : ℚ) ≤ s := Nat.cast_nonneg s
  have hquot : (s / pitch : ℚ) ≤ s := div_le_self hs hp
  have hround : round (s / pitch) ≤ s := by
    have hmono := hr.mono (by positivity) hquot
    rwa [hr.natCast (by omega)] at hmono
  have hlt : modulesIn round s pitch < (s : ℤ) + 1 := by
    rw [modulesIn, Rat.floor_lt_iff]
    push_cast
    linarith
  omega

/-- Below one pixel, at least two modules are counted between two pixels. -/
lemma two_le_modulesIn (hp : 0 < pitch) (hlt : pitch < 1) {span : ℤ} (hspan : 2 ≤ span) :
    2 ≤ modulesIn round span pitch := by
  have hs : (2 : ℚ) ≤ span := by exact_mod_cast hspan
  have hquot : ((4 : ℕ) / 2 : ℚ) ≤ span / pitch := by
    rw [le_div_iff₀ hp]
    push_cast
    linarith
  have hround := hr.half_le (by norm_num) hquot
  refine Rat.le_floor_iff.mpr ?_
  push_cast at hround ⊢
  linarith

end Rounding

section Steady

variable (hr : IsSteadyRounding round) (hp : 1 ≤ pitch)
include hr hp

/-- From one pixel on, the next sample lies farther on. -/
lemma offset_lt_succ {k : ℕ} (hk : offset round pitch k ≤ Bitmap.capacity) :
    offset round pitch k < offset round pitch (k + 1) := by
  have hzero : (0 : ℚ) ≤ k * pitch := by positivity
  obtain ⟨n, hn⟩ := Int.eq_ofNat_of_zero_le
    (offset_nonneg hr.toIsRounding (by linarith : 0 ≤ pitch) (Int.natCast_nonneg k))
  rw [hn, Bitmap.capacity] at hk
  have hhere : (n : ℚ) ≤ round (k * pitch) := by
    have hfloor : ((offset round pitch k : ℤ) : ℚ) ≤ round ((k : ℤ) * pitch) := Int.floor_le _
    rw [hn] at hfloor
    exact_mod_cast hfloor
  have hnext : (n + 1 : ℚ) ≤ round ((k + 1) * pitch) :=
    (hr.add_one (by omega) hzero hhere).trans (hr.mono (by positivity) (by linarith))
  have hreach : ((n + 1 : ℤ)) ≤ offset round pitch (k + 1) := by
    refine Rat.le_floor_iff.mpr ?_
    push_cast
    exact hnext
  omega

/-- So does every later one. -/
lemma offset_lt_of_lt {j k : ℕ} (hjk : j < k) (hj : offset round pitch j ≤ Bitmap.capacity) :
    offset round pitch j < offset round pitch k :=
  (offset_lt_succ hr hp hj).trans_le
    (offset_mono hr.toIsRounding (by linarith) (by omega) (by omega))

/-- On an axis that does not have to move back too far, different modules are sampled at different
pixels. -/
lemma offset_lt_of_fits {low high : ℤ} (hspan : high - low + 1 ≤ Bitmap.capacity) {count : ℕ}
    (h : (fit round pitch (nudge round pitch) low high count).isWrong (nudge round pitch) = false)
    {j k : ℕ} (hjk : j < k) (hk : k < count) : offset round pitch j < offset round pitch k := by
  have hp0 : 0 ≤ pitch := by linarith
  have hfirst := (start_add_offset_mem hr.toIsRounding hp0 h (show 0 < count by omega)).1
  have hlast := (start_add_offset_mem hr.toIsRounding hp0 h (hjk.trans hk)).2
  rw [Nat.cast_zero, offset_zero hr.toIsRounding] at hfirst
  exact offset_lt_of_lt hr hp hjk (by omega)

end Steady

/-! ### Both axes -/

/-- Squaring up does not fall below the smaller side. -/
lemma min_le_squareUp (w h : ℤ) : min w h ≤ (squareUp w h).1 ∧ min w h ≤ (squareUp w h).2 := by
  simp only [squareUp]
  split <;> dsimp only <;> omega

/-- What a pitch of at least one pixel guarantees between bounds: there are no more modules than
pixels, and different columns and rows are sampled at different pixels. -/
structure Resolved (round : ℚ → ℚ) (b : Bounds) (l : Lattice) : Prop where
  width_le : (l.width : ℤ) ≤ b.columns
  height_le : (l.height : ℤ) ≤ b.rows
  column_lt : ∀ x x', x < x' → x' < l.width → l.column round x < l.column round x'
  row_lt : ∀ y y', y < y' → y' < l.height → l.row round y < l.row round y'

/-- What a pitch below one pixel brings about: the first two columns are sampled at the same pixel,
and so are the first two rows. -/
structure Blurred (round : ℚ → ℚ) (l : Lattice) : Prop where
  one_lt_width : 1 < l.width
  one_lt_height : 1 < l.height
  column_eq : l.column round 0 = l.column round 1
  row_eq : l.row round 0 = l.row round 1

section Laid

variable {l : Lattice} {b : Bounds} (h : Laid round l.pitch b l)
include h

/-- **From one pixel on, a lattice is resolved.** -/
theorem Laid.resolved (hr : IsSteadyRounding round) (hb : b.Spans) (hp : 1 ≤ l.pitch) :
    Resolved round b l := by
  obtain ⟨hwidth, hheight⟩ := h.sides_le
  constructor
  case width_le => exact hwidth.trans (modulesIn_le_span hr.toIsRounding hp hb.columns_pos.le
    hb.columns_le)
  case height_le => exact hheight.trans (modulesIn_le_span hr.toIsRounding hp hb.rows_pos.le
    hb.rows_le)
  case column_lt =>
    intro x x' hx hx'
    exact Int.add_lt_add_left (offset_lt_of_fits hr hp hb.columns_le h.across_fits hx hx') _
  case row_lt =>
    intro y y' hy hy'
    exact Int.add_lt_add_left (offset_lt_of_fits hr hp hb.rows_le h.down_fits hy hy') _

/-- **Below one pixel, a lattice is blurred**, if its pitch is a rounded one. -/
theorem Laid.blurred (hr : IsRounding round) (hcolumns : 2 ≤ b.columns) (hrows : 2 ≤ b.rows)
    (hround : round l.pitch = l.pitch) (hpos : 0 < l.pitch) (hp : l.pitch < 1) :
    Blurred round l := by
  have hsquare := min_le_squareUp (modulesIn round b.columns l.pitch)
    (modulesIn round b.rows l.pitch)
  rw [h.squareUp_counted] at hsquare
  have hw := two_le_modulesIn hr hpos hp hcolumns
  have hh := two_le_modulesIn hr hpos hp hrows
  have hone : offset round l.pitch 1 = 0 := by
    rw [offset, Int.cast_one, one_mul, hround]
    exact Int.floor_eq_zero_iff.mpr ⟨hpos.le, hp⟩
  have hzero := offset_zero hr l.pitch
  constructor
  case one_lt_width => omega
  case one_lt_height => omega
  case column_eq => rw [column, column, Nat.cast_zero, Nat.cast_one, hzero, hone]
  case row_eq => rw [row, row, Nat.cast_zero, Nat.cast_one, hzero, hone]

end Laid

/-- **The samples of a measured lattice are distinct exactly if its pitch is at least one pixel.**
Then the lattice has no more columns and rows than there are pixels between its bounds.  Below one
pixel, which measuring does not exclude, the first two columns and rows coincide. -/
theorem resolved_or_blurred {image : Bitmap} {wanted : Bool} {l : Lattice}
    (h : ((measure Binary64.nearest image).run wanted).1 = .ok (.ok l)) :
    ∃ first last right bottom, image.firstOn? = some first ∧ image.lastOn? = some last
      ∧ bounds Binary64.nearest image l.pitch (.ofCells first last)
        = ⟨first.x, first.y, right, bottom⟩
      ∧ (1 ≤ l.pitch → Resolved Binary64.nearest ⟨first.x, first.y, right, bottom⟩ l)
      ∧ (l.pitch < 1 → Blurred Binary64.nearest l) := by
  have hr := isSteadyRounding_nearest
  obtain ⟨first, last, diagonal, hmeasured⟩ := run_measure_eq_ok_iff.mp h
  have hon := (Bitmap.firstOn?_spec hmeasured.first_eq).1
  have hhalf := hmeasured.half_le_pitch hr.toIsRounding
  obtain ⟨hleft, htop, -, -⟩ := hmeasured.bounds_mem
  have hspans := spans_bounds hr.toIsRounding hmeasured.first_eq hmeasured.last_eq
    hmeasured.diagonal_eq hhalf
  obtain ⟨hright, hbottom⟩ := lt_bounds hr.toIsRounding hmeasured.first_eq hmeasured.last_eq
    hmeasured.diagonal_eq hhalf
  refine ⟨first, last, _, _, hmeasured.first_eq, hmeasured.last_eq, by rw [← hleft, ← htop],
    fun hp => ?_, fun hp => ?_⟩
  · rw [← hleft, ← htop]
    exact hmeasured.laid.resolved hr hspans hp
  · obtain ⟨q, hq, hpitch⟩ := Pitch.exists_refined_eq_round hr.toIsRounding hon
      hmeasured.diagonal_eq
    have hround : Binary64.nearest l.pitch = l.pitch := by
      rw [hmeasured.pitch_eq, hpitch]
      exact hr.idem (le_trans (by norm_num) hq)
    refine hmeasured.laid.blurred hr.toIsRounding ?_ ?_ hround (by linarith) hp
    · rw [Bounds.columns]
      omega
    · rw [Bounds.rows]
      omega

/-- The seven columns and rows of modules eleven sevenths of a pixel wide are sampled at different
pixels. -/
theorem resolved_or_blurred_uneven :
    ((measure Binary64.nearest uneven).run true).1
      = .ok (.ok ⟨Binary64.nearest (11 / 7), 0, 0, 7, 7⟩)
    ∧ 1 ≤ Binary64.nearest (11 / 7)
    ∧ Resolved Binary64.nearest ⟨0, 0, 10, 10⟩ ⟨Binary64.nearest (11 / 7), 0, 0, 7, 7⟩ := by
  have hmeasure : ((measure Binary64.nearest uneven).run true).1
      = .ok (.ok ⟨Binary64.nearest (11 / 7), 0, 0, 7, 7⟩) := by decide +kernel
  have hfirst : uneven.firstOn? = some ⟨0, 0⟩ := by decide +kernel
  have hlast : uneven.lastOn? = some ⟨10, 10⟩ := by decide +kernel
  have hp : 1 ≤ Binary64.nearest (11 / 7) := by decide +kernel
  obtain ⟨first, last, right, bottom, hfirst', hlast', hbounds, hresolved, -⟩ :=
    resolved_or_blurred hmeasure
  obtain rfl := Option.some.inj (hfirst.symm.trans hfirst')
  obtain rfl := Option.some.inj (hlast.symm.trans hlast')
  rw [bounds_ofCells uneven _ (by decide) (by decide), Bounds.ofCells, Bounds.mk.injEq] at hbounds
  obtain ⟨-, -, rfl, rfl⟩ := hbounds
  exact ⟨hmeasure, hp, hresolved hp⟩

/-- Three single dark pixels on the diagonal, two steps apart, change its colour five times within
five steps. -/
def dotted : Bitmap :=
  Bitmap.ofFn 6 6 (by decide) (by decide) (by decide) fun x y => x == y && x % 2 == 0

/-- So they are taken for a symbol of seven modules a side between bounds of five pixels a side, and
its first two columns and rows are sampled at the same pixel. -/
theorem measure_dotted :
    ((measure Binary64.nearest dotted).run true).1
      = .ok (.ok ⟨Binary64.nearest (5 / 7), 0, 0, 7, 7⟩)
    ∧ dotted.firstOn? = some ⟨0, 0⟩ ∧ dotted.lastOn? = some ⟨4, 4⟩
    ∧ bounds Binary64.nearest dotted (Binary64.nearest (5 / 7)) (.ofCells ⟨0, 0⟩ ⟨4, 4⟩)
      = ⟨0, 0, 4, 4⟩
    ∧ Bounds.columns ⟨0, 0, 4, 4⟩ = 5 ∧ Bounds.rows ⟨0, 0, 4, 4⟩ = 5
    ∧ column Binary64.nearest ⟨Binary64.nearest (5 / 7), 0, 0, 7, 7⟩ 0
      = column Binary64.nearest ⟨Binary64.nearest (5 / 7), 0, 0, 7, 7⟩ 1
    ∧ row Binary64.nearest ⟨Binary64.nearest (5 / 7), 0, 0, 7, 7⟩ 0
      = row Binary64.nearest ⟨Binary64.nearest (5 / 7), 0, 0, 7, 7⟩ 1
    ∧ ¬ Resolved Binary64.nearest ⟨0, 0, 4, 4⟩ ⟨Binary64.nearest (5 / 7), 0, 0, 7, 7⟩ := by
  refine ⟨by decide +kernel, by decide +kernel, by decide +kernel,
    bounds_ofCells _ _ (by decide) (by decide), by decide, by decide, by decide +kernel,
    by decide +kernel, fun h => ?_⟩
  exact absurd h.width_le (by decide)

end Lattice

end MatrixSymbol
