/-
Which checks of a measurement can fail (`measurePureGrid`, section 3.4 of the specification).

Measuring checks its results one by one, but most of these checks never fail.  A diagonal that shows
a pitch leads through dark pixels in lower rows and leaves free columns to its right, so that the
bounds always enclose something; and modules are counted to the nearest, so that the last sample
never lands past the symbol by more than the half module that it may move back.

* `Lattice.bounds_right_eq`, `Lattice.bounds_bottom_eq`: how far the bounds reach;
* `Bounds.Spans`, `Lattice.isEmpty_bounds`, `Lattice.spans_bounds`: they enclose something;
* `Lattice.offset_lt`, `Lattice.isWrong_fit`: the last sample is offset by less than the span;
* `Lattice.fitted`, `Lattice.laid_fitted`: the lattice of the counted sides, which always fits;
* `Lattice.run_measure_of_few`, `Lattice.run_measure_of_many`: measuring by the changes of colour on
  the diagonal;
* `Lattice.excess_le_one`, `Lattice.even_of_excess`: without rounding, the last sample lands past
  the symbol by at most a pixel, and only if the pitch is even;
* `Lattice.measure_isOk_iff`: when measuring succeeds, and which failures never occur.
-/
import MatrixSymbol.Proofs.Recovery

namespace MatrixSymbol

/-- Bounds enclose pixels on both axes, and no more of them than an image can have. -/
structure Bounds.Spans (b : Bounds) : Prop where
  columns_pos : 0 < b.columns
  rows_pos : 0 < b.rows
  columns_le : b.columns ≤ Bitmap.capacity
  rows_le : b.rows ≤ Bitmap.capacity

namespace Lattice

variable {round : ℚ → ℚ} {image : Bitmap} {pitch : ℚ}

/-! ### Bounds enclose something -/

/-- How far the bounds reach to the right. -/
lemma bounds_right_eq (raw : Bounds) :
    (bounds round image pitch raw).right
      = if raw.right ≤ raw.left then
          min ((image.width : ℤ) - 1) (raw.left + offset round pitch minModules)
        else raw.right := by
  rw [bounds]
  by_cases hempty : raw.isEmpty
  · rw [if_pos hempty]
    rfl
  · rw [Bounds.isEmpty, Bool.or_eq_true, decide_eq_true_eq, decide_eq_true_eq, not_or] at hempty
    rw [if_neg (by simpa [Bounds.isEmpty] using hempty), if_neg hempty.1]

/-- How far they reach down. -/
lemma bounds_bottom_eq (raw : Bounds) :
    (bounds round image pitch raw).bottom
      = if raw.bottom ≤ raw.top then
          min ((image.height : ℤ) - 1) (raw.top + offset round pitch minModules)
        else raw.bottom := by
  rw [bounds]
  by_cases hempty : raw.isEmpty
  · rw [if_pos hempty]
    rfl
  · rw [Bounds.isEmpty, Bool.or_eq_true, decide_eq_true_eq, decide_eq_true_eq, not_or] at hempty
    rw [if_neg (by simpa [Bounds.isEmpty] using hempty), if_neg hempty.2]

/-- The smallest symbol is wider than a pixel. -/
lemma offset_minModules_pos (hr : IsRounding round) (hp : 1 / 2 ≤ pitch) :
    0 < offset round pitch minModules := by
  have hle := hr.half_le (n := 21) (q := ((minModules : ℤ) : ℚ) * pitch) (by norm_num)
    (by rw [minModules]; push_cast; linarith)
  have hone : (1 : ℤ) ≤ offset round pitch minModules :=
    Rat.le_floor_iff.mpr (le_trans (by norm_num) hle)
  omega

section Enclosing

variable (hr : IsRounding round) {first last : Cell} {diagonal : ℚ}
  (hfirst : image.firstOn? = some first) (hlast : image.lastOn? = some last)
  (hdiagonal : Pitch.measured? round image first.x first.y 1 1 = some diagonal)
  (hp : 1 / 2 ≤ pitch)
include hr hfirst hlast hdiagonal hp

/-- The bounds lead from the first dark pixel to the right and down: in lower rows there are dark
pixels on the diagonal, and right of it there is room to stretch. -/
lemma lt_bounds :
    (first.x : ℤ) < (bounds round image pitch (.ofCells first last)).right
      ∧ (first.y : ℤ) < (bounds round image pitch (.ofCells first last)).bottom := by
  have hon := (Bitmap.firstOn?_spec hfirst).1
  have hroom := Pitch.room_of_diagonal hon hdiagonal
  have hbelow := lt_of_diagonal hlast hdiagonal
  have hreach := offset_minModules_pos hr hp
  rw [bounds_right_eq, bounds_bottom_eq]
  simp only [Bounds.ofCells]
  constructor <;> split_ifs <;> omega

/-- **The bounds always enclose something.** -/
theorem isEmpty_bounds : (bounds round image pitch (.ofCells first last)).isEmpty = false := by
  obtain ⟨hx, hy⟩ := lt_bounds hr hfirst hlast hdiagonal hp
  rw [Bounds.isEmpty, bounds_left, bounds_top, Bool.or_eq_false_iff, decide_eq_false_iff_not,
    decide_eq_false_iff_not]
  exact ⟨not_le.mpr hx, not_le.mpr hy⟩

lemma spans_bounds : (bounds round image pitch (.ofCells first last)).Spans := by
  obtain ⟨hx, hy⟩ := lt_bounds hr hfirst hlast hdiagonal hp
  obtain ⟨hwidth, hheight⟩ := image.sides_le_capacity
  obtain ⟨hlastx, hlasty⟩ := Bitmap.lt_of_isOn (Bitmap.lastOn?_spec hlast).1
  have hleft : (bounds round image pitch (.ofCells first last)).left = first.x :=
    bounds_left image pitch _
  have htop : (bounds round image pitch (.ofCells first last)).top = first.y :=
    bounds_top image pitch _
  have hright : (bounds round image pitch (.ofCells first last)).right < image.width :=
    bounds_right_lt pitch (Int.ofNat_lt.mpr hlastx)
  have hbottom : (bounds round image pitch (.ofCells first last)).bottom < image.height :=
    bounds_bottom_lt pitch (Int.ofNat_lt.mpr hlasty)
  constructor <;> simp only [Bounds.columns, Bounds.rows] <;> omega

end Enclosing

/-! ### No sample lands too far past the symbol -/

/-- Squaring up does not make a side longer. -/
lemma squareUp_le (w h : ℤ) : (squareUp w h).1 ≤ w ∧ (squareUp w h).2 ≤ h := by
  simp only [squareUp]
  split <;> dsimp only <;> omega

section Fitting

variable (hr : IsFineRounding round) (hp : 1 / 2 ≤ pitch)
include hr hp

/-- **The last of the counted modules is offset by less than the span.**  A count that is the
nearest one exceeds the quotient by at most a half, and the rounded quotient misses the true one by
less than an eighth; what then remains of the last module is more than the rounding of its offset
can add. -/
theorem offset_lt {span count : ℤ} (hspan : 0 < span) (hle : span ≤ Bitmap.capacity)
    (hpos : 0 < count) (hcount : count ≤ modulesIn round span pitch) :
    offset round pitch (count - 1) < span := by
  obtain ⟨s, rfl⟩ := Int.eq_ofNat_of_zero_le hspan.le
  obtain ⟨n, hn⟩ := Int.eq_ofNat_of_zero_le (show 0 ≤ count - 1 by omega)
  rw [Bitmap.capacity] at hle
  have hs : (1 : ℚ) ≤ s := by exact_mod_cast Int.natCast_pos.mp hspan
  have hquot : (0 : ℚ) ≤ s / pitch := by positivity
  have hdouble : (s / pitch : ℚ) ≤ (2 * s : ℕ) := by
    rw [div_le_iff₀ (by linarith)]
    push_cast
    nlinarith
  have hfloor : (n + 1 : ℚ) ≤ round (s / pitch) + 1 / 2 := by
    have h : ((count : ℤ) : ℚ) ≤ round (s / pitch) + 1 / 2 := Rat.le_floor_iff.mp hcount
    rw [show count = n + 1 by omega] at h
    exact_mod_cast h
  have hsmall : n ≤ 2 * s := by
    have h := hr.mono hquot hdouble
    rw [hr.natCast (by omega)] at h
    have : (n : ℚ) < (2 * s : ℕ) + 1 := by linarith
    exact Nat.lt_succ_iff.mp (by exact_mod_cast this)
  have hmiss : (n + 3 / 8 : ℚ) ≤ s / pitch := by
    by_contra hlt
    have h := hr.le_eighth (n := 8 * n + 3) (by omega) hquot (by push_cast; linarith)
    push_cast at h
    linarith
  have hlast : (n * pitch : ℚ) ≤ (8 * s - 1 : ℕ) / 8 := by
    rw [le_div_iff₀ (by linarith)] at hmiss
    rw [Nat.cast_sub (by omega)]
    push_cast
    nlinarith
  have hround := hr.le_eighth (by omega) (by positivity) hlast
  rw [hn, offset, Rat.floor_lt_iff]
  rw [Nat.cast_sub (by omega)] at hround
  push_cast at hround ⊢
  linarith

/-- So an axis on which no more modules are placed than are counted fits. -/
lemma isWrong_fit {low high count : ℤ} (hspan : 0 < high - low + 1)
    (hle : high - low + 1 ≤ Bitmap.capacity) (hpos : 0 < count)
    (hcount : count ≤ modulesIn round (high - low + 1) pitch) :
    (fit round pitch (nudge round pitch) low high count).isWrong (nudge round pitch) = false := by
  have hoffset := offset_lt hr hp hspan hle hpos hcount
  rw [Fit.isWrong, fit, Bool.and_eq_false_iff, decide_eq_false_iff_not, decide_eq_false_iff_not]
  dsimp only
  omega

/-- The lattice of the counted sides between bounds. -/
def fitted (round : ℚ → ℚ) (pitch : ℚ) (b : Bounds) : Lattice where
  pitch := pitch
  left := (across round pitch b (sides round pitch b).1).start
  top := (down round pitch b (sides round pitch b).2).start
  width := (sides round pitch b).1.toNat
  height := (sides round pitch b).2.toNat

/-- **The counted sides always fit between the bounds.** -/
theorem laid_fitted {b : Bounds} (hb : b.Spans) (hcolumns : 0 < modulesIn round b.columns pitch)
    (hrows : 0 < modulesIn round b.rows pitch) : Laid round pitch b (fitted round pitch b) := by
  obtain ⟨hw, hh⟩ := squareUp_pos hcolumns hrows
  obtain ⟨hwle, hhle⟩ :=
    squareUp_le (modulesIn round b.columns pitch) (modulesIn round b.rows pitch)
  have hwidth : ((sides round pitch b).1.toNat : ℤ) = (sides round pitch b).1 :=
    Int.toNat_of_nonneg hw.le
  have hheight : ((sides round pitch b).2.toNat : ℤ) = (sides round pitch b).2 :=
    Int.toNat_of_nonneg hh.le
  refine ⟨rfl, hcolumns, hrows, ?_, ?_, ?_, ?_, ?_⟩ <;> simp only [fitted, hwidth, hheight]
  · exact isWrong_fit hr hp hb.columns_pos hb.columns_le hw hwle
  · exact isWrong_fit hr hp hb.rows_pos hb.rows_le hh hhle

end Fitting

/-! ### Measuring by the diagonal -/

/-- A diagonal with enough changes leads down to other dark pixels. -/
lemma lt_of_changes {first last : Cell} (hlast : image.lastOn? = some last)
    (hmany : 5 ≤ Scan.changesAfter true (Ray.cast image first.x first.y 1 1).colours) :
    first.y < last.y :=
  lt_of_diagonal hlast ((@Pitch.measured?_eq_some_iff id _ _ _ _ _ _).mpr ⟨hmany, rfl⟩)

section Measuring

variable {first last : Cell} (hfirst : image.firstOn? = some first)
  (hlast : image.lastOn? = some last) (wanted : Bool)
include hfirst hlast

/-- With too few changes of colour on the diagonal, measuring fails for that reason. -/
lemma run_measure_of_few
    (hfew : Scan.changesAfter true (Ray.cast image first.x first.y 1 1).colours < 5) :
    ((measure round image).run wanted).1
      = .ok (.error (.brokenDiagonal (.ofNat first.x) (.ofNat first.y)
          (Scan.changesAfter true (Ray.cast image first.x first.y 1 1).colours) 5)) := by
  have hseen : Pitch.seen image first.x first.y 1 1 = ⟨_, _, true⟩ := Scan.count_eq_of_lt hfew
  rw [run_measure_some hfirst hlast, Pitch.measured?_eq_none_of_lt hfew, hseen]
  rfl

/-- **With enough of them, measuring fails only if a side has no modules**: the bounds enclose
something, and the counted sides fit between them. -/
theorem run_measure_of_many (hr : IsFineRounding round)
    (hmany : 5 ≤ Scan.changesAfter true (Ray.cast image first.x first.y 1 1).colours)
    {b : Bounds} (hpitch : pitch = Pitch.estimated round image first.x first.y)
    (hb : b = bounds round image pitch (.ofCells first last)) :
    ((measure round image).run wanted).1
      = .ok (if modulesIn round b.columns pitch ≤ 0 ∨ modulesIn round b.rows pitch ≤ 0 then
          .error (.emptyGrid (modulesIn round b.columns pitch) (modulesIn round b.rows pitch))
        else .ok (fitted round pitch b)) := by
  subst hpitch hb
  have hdiagonal : Pitch.measured? round image first.x first.y 1 1
      = some (round ((Pitch.seen image first.x first.y 1 1).distance / 7)) :=
    Pitch.measured?_eq_some_iff.mpr ⟨hmany, rfl⟩
  have hp : 1 / 2 ≤ Pitch.estimated round image first.x first.y :=
    Pitch.half_le_refined hr.toIsRounding (Bitmap.firstOn?_spec hfirst).1 hdiagonal
  have hspans := spans_bounds hr.toIsRounding hfirst hlast hdiagonal hp
  rw [run_measure_some hfirst hlast, hdiagonal]
  dsimp only
  rw [← Pitch.estimated, run_within, isEmpty_bounds hr.toIsRounding hfirst hlast hdiagonal hp,
    if_neg Bool.false_ne_true]
  split
  · next hempty => rw [run_counted, if_pos hempty]
  · next hsome =>
    rw [not_or, not_le, not_le] at hsome
    rw [run_counted_eq_ok_iff.mpr (laid_fitted hr hp hspans hsome.1 hsome.2)]

end Measuring

/-! ### Measuring without rounding -/

section Exact

/-- A span has a module if it is at least half a module long. -/
lemma modulesIn_id_pos_iff (hp : 0 < pitch) {span : ℤ} :
    0 < modulesIn id span pitch ↔ pitch / 2 ≤ span := by
  have hone : 0 < modulesIn id span pitch ↔ ((1 : ℤ) : ℚ) ≤ span / pitch + 1 / 2 :=
    Rat.le_floor_iff
  rw [hone, ← sub_le_iff_le_add, le_div_iff₀ hp]
  constructor <;> intro h <;> push_cast at h ⊢ <;> linarith

/-- Where the samples of an axis start. -/
lemma start_fit (n low high count : ℤ) :
    (fit round pitch n low high count).start
      = low + n - max 0 (fit round pitch n low high count).excess := by
  rw [fit]
  dsimp only
  split <;> omega

variable {low high count : ℤ} (hp : 0 < pitch)
  (hcount : count ≤ modulesIn id (high - low + 1) pitch)
include hp hcount

/-- The last sample lands past the symbol by what half the pitch lacks of a whole number, less than
a pixel above it. -/
lemma excess_le :
    (fit id pitch (nudge id pitch) low high count).excess ≤ 1 + ⌊pitch / 2⌋ - ⌈pitch / 2⌉ := by
  have hfloor : (count : ℚ) ≤ (high - low + 1 : ℤ) / pitch + 1 / 2 := Rat.le_floor_iff.mp hcount
  have hlast : ((count - 1 : ℤ) : ℚ) * pitch ≤ (high - low + 1 : ℤ) - pitch / 2 := by
    have h : (count : ℚ) - 1 / 2 ≤ (high - low + 1 : ℤ) / pitch := by linarith
    rw [le_div_iff₀ hp] at h
    push_cast at h ⊢
    linarith
  have hoffset : offset id pitch (count - 1) ≤ high - low + 1 - ⌈pitch / 2⌉ := by
    have h : ⌊((count - 1 : ℤ) : ℚ) * pitch⌋ ≤ ⌊((high - low + 1 : ℤ) : ℚ) - pitch / 2⌋ :=
      Int.floor_mono hlast
    rwa [sub_eq_add_neg ((high - low + 1 : ℤ) : ℚ), Int.floor_intCast_add, Int.floor_neg,
      ← sub_eq_add_neg] at h
  have hnudge : nudge id pitch = ⌊pitch / 2⌋ := rfl
  rw [fit]
  dsimp only
  omega

/-- **The last sample lands past the symbol by at most a pixel.** -/
theorem excess_le_one : (fit id pitch (nudge id pitch) low high count).excess ≤ 1 := by
  have hle := excess_le hp hcount
  have hfloor := Int.floor_le_ceil (pitch / 2)
  omega

/-- **It does so only if the pitch is even.** -/
theorem even_of_excess (hexcess : 0 < (fit id pitch (nudge id pitch) low high count).excess) :
    ∃ k : ℤ, pitch = 2 * k := by
  have hle := excess_le hp hcount
  refine ⟨⌊pitch / 2⌋, ?_⟩
  have hlow := Int.floor_le (pitch / 2)
  have hhigh : pitch / 2 ≤ ⌊pitch / 2⌋ := Int.ceil_le.mp (by omega)
  linarith

/-- So the samples start half a module inside the symbol, or, if the pitch is even, perhaps a pixel
before that. -/
lemma start_fit_id :
    (fit id pitch (nudge id pitch) low high count).start = low + ⌊pitch / 2⌋
      ∨ (fit id pitch (nudge id pitch) low high count).start = low + ⌊pitch / 2⌋ - 1
        ∧ ∃ k : ℤ, pitch = 2 * k := by
  have hstart := @start_fit id pitch (nudge id pitch) low high count
  have hone := excess_le_one hp hcount
  have hnudge : nudge id pitch = ⌊pitch / 2⌋ := rfl
  by_cases hexcess : 0 < (fit id pitch (nudge id pitch) low high count).excess
  · exact Or.inr ⟨by omega, even_of_excess hp hcount hexcess⟩
  · exact Or.inl (by omega)

end Exact

/-- The span of the bounds from one dark pixel to another. -/
lemma columns_bounds (first last : Cell) :
    (bounds round image pitch (.ofCells first last)).columns
      = (if last.x ≤ first.x then
          min ((image.width : ℤ) - 1) (first.x + offset round pitch minModules)
        else last.x) - first.x + 1 := by
  rw [Bounds.columns, bounds_right_eq, bounds_left]
  simp only [Bounds.ofCells, Nat.cast_le]

lemma rows_bounds {first last : Cell} (hbelow : first.y < last.y) :
    (bounds round image pitch (.ofCells first last)).rows = (last.y : ℤ) - first.y + 1 := by
  rw [Bounds.rows, bounds_bottom_eq, bounds_top]
  simp only [Bounds.ofCells, Nat.cast_le, not_le.mpr hbelow, if_false]

/-- **The only failures** are that there is no dark pixel, that the diagonal from the first one
changes colour too little, and that a side has no modules. -/
theorem failure_of_run_measure (hr : IsFineRounding round) {wanted : Bool} {failure : Failure}
    (h : ((measure round image).run wanted).1 = .ok (.error failure)) :
    failure = .blankImage ∨ (∃ x y n, failure = .brokenDiagonal x y n 5)
      ∨ ∃ w h, failure = .emptyGrid w h := by
  cases hfirst : image.firstOn? with
  | none =>
    rw [run_measure_none hfirst] at h
    exact Or.inl (Except.error.inj (Except.ok.inj h)).symm
  | some first =>
    obtain ⟨last, hlast⟩ := Bitmap.exists_lastOn? hfirst
    by_cases hfew : Scan.changesAfter true (Ray.cast image first.x first.y 1 1).colours < 5
    · rw [run_measure_of_few hfirst hlast wanted hfew] at h
      exact Or.inr (Or.inl ⟨_, _, _, (Except.error.inj (Except.ok.inj h)).symm⟩)
    · rw [run_measure_of_many hfirst hlast wanted hr (not_lt.mp hfew) rfl rfl] at h
      split_ifs at h
      · exact Or.inr (Or.inr ⟨_, _, (Except.error.inj (Except.ok.inj h)).symm⟩)
      · cases Except.ok.inj h

/-- With enough changes on the diagonal, and without rounding, measuring succeeds if both spans are
at least half the pitch. -/
lemma exists_run_measure_iff {first last : Cell} (hfirst : image.firstOn? = some first)
    (hlast : image.lastOn? = some last) (wanted : Bool)
    (hmany : 5 ≤ Scan.changesAfter true (Ray.cast image first.x first.y 1 1).colours)
    {b : Bounds} (hpitch : pitch = Pitch.estimated id image first.x first.y)
    (hb : b = bounds id image pitch (.ofCells first last)) :
    (∃ l, ((measure id image).run wanted).1 = .ok (.ok l))
      ↔ pitch / 2 ≤ b.columns ∧ pitch / 2 ≤ b.rows := by
  have hhalf : 1 / 2 ≤ pitch := hpitch ▸ Pitch.half_le_refined isRounding_id
    (Bitmap.firstOn?_spec hfirst).1 (Pitch.measured?_eq_some_iff.mpr ⟨hmany, rfl⟩)
  have hp : 0 < pitch := by linarith
  rw [run_measure_of_many hfirst hlast wanted isFineRounding_id hmany hpitch hb,
    ← modulesIn_id_pos_iff hp, ← modulesIn_id_pos_iff hp]
  split
  · next hempty =>
    refine ⟨fun ⟨l, h⟩ => (by cases h), fun h => ?_⟩
    omega
  · next hsome => exact ⟨fun _ => by omega, fun _ => ⟨_, rfl⟩⟩

/-- The sides of a lattice that is laid between bounds are at most the counted ones. -/
lemma Laid.sides_le {round : ℚ → ℚ} {l : Lattice} {b : Bounds} (h : Laid round l.pitch b l) :
    (l.width : ℤ) ≤ modulesIn round b.columns l.pitch
      ∧ (l.height : ℤ) ≤ modulesIn round b.rows l.pitch := by
  have hle := squareUp_le (modulesIn round b.columns l.pitch) (modulesIn round b.rows l.pitch)
  rwa [h.squareUp_counted] at hle

/-- Without rounding, both axes of a lattice that is laid between bounds start half a module inside
them, or, if the pitch is even, perhaps a pixel before that. -/
lemma Laid.start_id {l : Lattice} {b : Bounds} (h : Laid id l.pitch b l) (hp : 0 < l.pitch) :
    (l.left = b.left + ⌊l.pitch / 2⌋
        ∨ l.left = b.left + ⌊l.pitch / 2⌋ - 1 ∧ ∃ k : ℤ, l.pitch = 2 * k)
      ∧ (l.top = b.top + ⌊l.pitch / 2⌋
        ∨ l.top = b.top + ⌊l.pitch / 2⌋ - 1 ∧ ∃ k : ℤ, l.pitch = 2 * k) := by
  obtain ⟨hwidth, hheight⟩ := h.sides_le
  rw [h.left_eq, h.top_eq]
  exact ⟨start_fit_id hp hwidth, start_fit_id hp hheight⟩

/-- **When measuring succeeds.**  Let nothing be rounded.  Measuring an image succeeds exactly if it
has a dark pixel, the diagonal from the first one changes colour five times before it leaves the
image, and on both axes the span to the last one, stretched to the right if it is empty, is at least
half the estimated pitch.  The last dark pixel then lies below the first one.  No image makes
measuring fail because the bounds enclose nothing, or because the last sample lands too far past the
symbol; the samples start half a module inside it, or, if the pitch is even, perhaps a pixel before
that. -/
theorem measure_isOk_iff (image : Bitmap) (wanted : Bool) :
    ((∃ l, ((measure id image).run wanted).1 = .ok (.ok l))
      ↔ ∃ first last pitch, image.firstOn? = some first ∧ image.lastOn? = some last
        ∧ 5 ≤ Scan.changesAfter true (Ray.cast image first.x first.y 1 1).colours
        ∧ ((Pitch.estimate id image (.ofNat first.x) (.ofNat first.y)).run wanted).1
          = .ok (.ok pitch)
        ∧ pitch / 2 ≤ ((if last.x ≤ first.x then
            min ((image.width : ℤ) - 1) (first.x + ⌊21 * pitch⌋) else last.x) - first.x + 1 : ℤ)
        ∧ pitch / 2 ≤ ((last.y : ℤ) - first.y + 1 : ℤ))
    ∧ (∀ first last, image.firstOn? = some first → image.lastOn? = some last →
        5 ≤ Scan.changesAfter true (Ray.cast image first.x first.y 1 1).colours →
        first.y < last.y ∧ ∃ pitch,
          ((Pitch.estimate id image (.ofNat first.x) (.ofNat first.y)).run wanted).1
            = .ok (.ok pitch))
    ∧ (∀ left top right bottom n,
        ((measure id image).run wanted).1 ≠ .ok (.error (.emptyBounds left top right bottom))
        ∧ ((measure id image).run wanted).1 ≠ .ok (.error (.pastRightEdge n))
        ∧ ((measure id image).run wanted).1 ≠ .ok (.error (.pastBottomEdge n)))
    ∧ ∀ l, ((measure id image).run wanted).1 = .ok (.ok l) →
        ∃ first, image.firstOn? = some first
          ∧ (l.left = first.x + ⌊l.pitch / 2⌋
            ∨ l.left = first.x + ⌊l.pitch / 2⌋ - 1 ∧ ∃ k : ℤ, l.pitch = 2 * k)
          ∧ (l.top = first.y + ⌊l.pitch / 2⌋
            ∨ l.top = first.y + ⌊l.pitch / 2⌋ - 1 ∧ ∃ k : ℤ, l.pitch = 2 * k) := by
  refine ⟨⟨fun ⟨l, h⟩ => ?_, ?_⟩, fun first last hfirst hlast hmany => ?_, ?_, fun l h => ?_⟩
  · obtain ⟨first, last, diagonal, hmeasured⟩ := run_measure_eq_ok_iff.mp h
    have hmany := (Pitch.measured?_eq_some_iff.mp hmeasured.diagonal_eq).1
    have hspans := (exists_run_measure_iff hmeasured.first_eq hmeasured.last_eq wanted hmany rfl
      rfl).mp ⟨l, h⟩
    rw [columns_bounds, rows_bounds (lt_of_changes hmeasured.last_eq hmany)] at hspans
    exact ⟨first, last, _, hmeasured.first_eq, hmeasured.last_eq, hmany,
      Pitch.run_estimate_eq_ok_iff.mpr ⟨hmany, rfl⟩, hspans⟩
  · rintro ⟨first, last, pitch, hfirst, hlast, hmany, hestimate, hspans⟩
    have hpitch := (Pitch.run_estimate_eq_ok_iff.mp hestimate).2
    rw [exists_run_measure_iff hfirst hlast wanted hmany hpitch rfl, columns_bounds,
      rows_bounds (lt_of_changes hlast hmany)]
    exact hspans
  · exact ⟨lt_of_changes hlast hmany, _, Pitch.run_estimate_eq_ok_iff.mpr ⟨hmany, rfl⟩⟩
  · intro left top right bottom n
    refine ⟨fun h => ?_, fun h => ?_, fun h => ?_⟩ <;>
      rcases failure_of_run_measure isFineRounding_id h with h | ⟨_, _, _, h⟩ | ⟨_, _, h⟩ <;>
        cases h
  · obtain ⟨first, last, diagonal, hmeasured⟩ := run_measure_eq_ok_iff.mp h
    have hp : 0 < l.pitch := by linarith [hmeasured.half_le_pitch isRounding_id]
    obtain ⟨hleft, htop, -, -⟩ := hmeasured.bounds_mem
    have hstart := hmeasured.laid.start_id hp
    rw [hleft, htop] at hstart
    exact ⟨first, hmeasured.first_eq, hstart⟩

/-- A finder diagonal in modules of two pixels, cut off in the middle of the last column, and a dark
module below its first one, so that the last dark pixel lies in the column of the first one. -/
def slanted : Bitmap :=
  Bitmap.ofFn 15 16 (by decide) (by decide) (by decide) fun x y =>
    (x / 2 == y / 2 && Modules.finderDiagonal.getD (x / 2) false) || (x == 0 && y / 2 == 7)

/-- The bounds are stretched to the right, and the columns start a pixel before the middle of the
first module, since the last one would land past the edge of the image. -/
theorem measure_isOk_iff_slanted :
    slanted.firstOn? = some ⟨0, 0⟩ ∧ slanted.lastOn? = some ⟨0, 15⟩
    ∧ 5 ≤ Scan.changesAfter true (Ray.cast slanted 0 0 1 1).colours
    ∧ 0 < 15
    ∧ (∃ pitch, ((Pitch.estimate id slanted (.ofNat 0) (.ofNat 0)).run true).1 = .ok (.ok pitch)
      ∧ pitch / 2 ≤ (min ((15 : ℤ) - 1) (0 + ⌊21 * pitch⌋) - 0 + 1 : ℤ))
    ∧ ((measure id slanted).run true).1 = .ok (.ok ⟨2, 0, 1, 8, 8⟩)
    ∧ ((0 : ℤ) = 0 + ⌊(2 : ℚ) / 2⌋
      ∨ (0 : ℤ) = 0 + ⌊(2 : ℚ) / 2⌋ - 1 ∧ ∃ k : ℤ, (2 : ℚ) = 2 * k) := by
  have hfirst : slanted.firstOn? = some ⟨0, 0⟩ := by decide +kernel
  have hlast : slanted.lastOn? = some ⟨0, 15⟩ := by decide +kernel
  have hmany : 5 ≤ Scan.changesAfter true (Ray.cast slanted 0 0 1 1).colours := by decide +kernel
  have hmeasure : ((measure id slanted).run true).1 = .ok (.ok ⟨2, 0, 1, 8, 8⟩) := by decide +kernel
  obtain ⟨hiff, hbelow, -, hstart⟩ := measure_isOk_iff slanted true
  obtain ⟨first, last, pitch, hfirst', hlast', -, hestimate, hcolumns, -⟩ := hiff.mp ⟨_, hmeasure⟩
  obtain rfl := Option.some.inj (hfirst.symm.trans hfirst')
  obtain rfl := Option.some.inj (hlast.symm.trans hlast')
  obtain ⟨first, hfirst'', hleft, -⟩ := hstart _ hmeasure
  obtain rfl := Option.some.inj (hfirst.symm.trans hfirst'')
  exact ⟨hfirst, hlast, hmany, (hbelow _ _ hfirst hlast hmany).1, ⟨pitch, hestimate, hcolumns⟩,
    hmeasure, hleft⟩

end Lattice

end MatrixSymbol
