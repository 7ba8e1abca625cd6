/-
Drawings painted module by module (`renderModules`).

The loops of `Drawing.paint` go through the dark modules and through the rows and columns of each,
and set one pixel after the other.

* `Drawing.strokes`: the calls of the loops; `Drawing.exists_stroke_iff`: they go to the pixels
  with ink;
* `Drawing.paint_eq_squares`: the loops draw squares, and refuse what has no room.
-/
import MatrixSymbol.Proofs.Arithmetic
import MatrixSymbol.Proofs.Drawing

namespace MatrixSymbol

/-! ### The calls of the loops -/

lemma Modules.mem_darkCells {modules : Modules} {c : Cell} :
    c ∈ modules.darkCells ↔ c.x < modules.columns ∧ modules.isDark c.x c.y = true := by
  obtain ⟨x, y⟩ := c
  simp only [darkCells, List.mem_flatMap, List.mem_filterMap, Prod.exists,
    List.mem_zipIdx_iff_getElem?]
  constructor
  · rintro ⟨row, j, hrow, dark, i, hdark, h⟩
    split_ifs at h with hon
    obtain ⟨rfl, rfl⟩ := Cell.mk.inj (Option.some.inj h)
    rw [List.getElem?_take] at hdark
    split_ifs at hdark with hx
    refine ⟨hx, ?_⟩
    rw [isDark, List.getD_eq_getElem?_getD, List.getD_eq_getElem?_getD, hrow, Option.getD_some,
      hdark]
    exact hon
  · rintro ⟨hx, hdark⟩
    rw [isDark, List.getD_eq_getElem?_getD, List.getD_eq_getElem?_getD] at hdark
    cases hrow : modules[y]? with
    | none =>
      rw [hrow] at hdark
      cases hdark
    | some row =>
      rw [hrow, Option.getD_some] at hdark
      have hcell : row[x]? = some true := by
        cases hcell : row[x]? with
        | none => rw [hcell] at hdark; cases hdark
        | some dark => rw [hcell] at hdark; exact congrArg some hdark
      refine ⟨row, y, hrow, true, x, ?_, if_pos rfl⟩
      rw [List.getElem?_take, if_pos hx, hcell]

namespace Drawing

/-- The call for one pixel of a module. -/
def stroke (size margin : Number) (c : Cell) (dx dy : Number) : Setting :=
  ⟨margin + .ofNat c.x * size + dx, margin + .ofNat c.y * size + dy, true⟩

/-- The calls for one module, row by row, in an image of given sides. -/
def moduleStrokes (size margin : Number) (w h : ℕ) (c : Cell) : List Setting :=
  (stepsBelow h size).flatMap fun dy => (stepsBelow w size).flatMap fun dx =>
    [stroke size margin c dx dy]

/-- The calls for all dark modules, in an image of given sides. -/
def strokes (modules : Modules) (size margin : Number) (w h : ℕ) : List Setting :=
  modules.darkCells.flatMap (moduleStrokes size margin w h)

lemma value_of_mem_strokes {modules : Modules} {size margin : Number} {w h : ℕ} :
    ∀ s ∈ strokes modules size margin w h, s.value = true := by
  simp only [strokes, moduleStrokes, List.mem_flatMap, List.mem_singleton]
  rintro s ⟨c, -, dy, -, dx, -, rfl⟩
  rfl

lemma lt_ofNat (m n : ℕ) : (Number.ofNat m).lt (.ofNat n) = decide (m < n) := by
  rw [Number.ofNat_eq_finite, Number.ofNat_eq_finite]
  simp [Number.lt, Number.toRat?]

/-- The steps below a natural number, if the side has room for them. -/
lemma stepsBelow_ofNat {m bound : ℕ} (h : m ≤ bound) :
    stepsBelow bound (.ofNat m) = (List.range m).map .ofNat := by
  obtain ⟨n, rfl⟩ := Nat.exists_eq_add_of_le h
  rw [stepsBelow, Nat.add_assoc, List.range_add, List.map_append, List.takeWhile_append_of_pos,
    List.range_succ_eq_map]
  · simp [lt_ofNat]
  · simp [lt_ofNat]

/-- The coordinate of a pixel of a module. -/
lemma coordinate_ofNat {m q x i : ℕ} (h : q + x * m + i < 2 ^ 53) :
    Number.ofNat q + .ofNat x * .ofNat m + .ofNat i = .ofNat (q + x * m + i) := by
  rw [Number.ofNat_mul (by omega), Number.ofNat_add (by omega), Number.ofNat_add h]

/-- The call for a pixel goes there. -/
lemma goesTo_stroke {m q i j : ℕ} {c : Cell} (hx : q + c.x * m + i < 2 ^ 53)
    (hy : q + c.y * m + j < 2 ^ 53) :
    (stroke (.ofNat m) (.ofNat q) c (.ofNat i) (.ofNat j)).GoesTo (q + c.x * m + i)
      (q + c.y * m + j) := by
  rw [stroke, coordinate_ofNat hx, coordinate_ofNat hy]
  exact Setting.goesTo_ofNat _ _ true

variable {modules : Modules} {m q : ℕ}

/-- A pixel of a dark module lies in the image. -/
lemma pixel_lt_side (q : ℕ) {c : Cell} (hc : c ∈ modules.darkCells) {i j : ℕ} (hi : i < m)
    (hj : j < m) :
    q + c.x * m + i < side modules.columns m q ∧ q + c.y * m + j < side modules.length m q := by
  obtain ⟨hx, hdark⟩ := Modules.mem_darkCells.mp hc
  have hx' := Nat.mul_le_mul_right m (show c.x + 1 ≤ modules.columns from hx)
  have hy' := Nat.mul_le_mul_right m
    (show c.y + 1 ≤ modules.length from Modules.lt_length_of_isDark hdark)
  rw [Nat.succ_mul] at hx' hy'
  rw [side, side]
  omega

/-- A pixel of a module has its colour. -/
lemma ink_pixel {c : Cell} (hc : c ∈ modules.darkCells) {i j : ℕ} (hi : i < m) (hj : j < m) :
    ink modules.columns modules.isDark m q (q + c.x * m + i) (q + c.y * m + j) = true := by
  obtain ⟨hx, hdark⟩ := Modules.mem_darkCells.mp hc
  rw [ink, Nat.add_assoc, Nat.add_assoc, Nat.add_sub_cancel_left, Nat.add_sub_cancel_left,
    Bitmap.place_div hi, Bitmap.place_div hj, decide_eq_true hx, hdark]
  simp

/-- The steps of the loops, for an image with a dark module. -/
lemma steps_eq (q : ℕ) {c : Cell} (hc : c ∈ modules.darkCells) :
    stepsBelow (side modules.columns m q) (.ofNat m) = (List.range m).map .ofNat
      ∧ stepsBelow (side modules.length m q) (.ofNat m) = (List.range m).map .ofNat := by
  obtain ⟨hx, hdark⟩ := Modules.mem_darkCells.mp hc
  have hcolumns := Nat.le_mul_of_pos_left m (Nat.zero_lt_of_lt hx)
  have hlength := Nat.le_mul_of_pos_left m (Nat.zero_lt_of_lt (Modules.lt_length_of_isDark hdark))
  rw [side, side]
  exact ⟨stepsBelow_ofNat (by omega), stepsBelow_ofNat (by omega)⟩

lemma mem_moduleStrokes {c : Cell} (hc : c ∈ modules.darkCells) {s : Setting} :
    s ∈ moduleStrokes (.ofNat m) (.ofNat q) (side modules.columns m q) (side modules.length m q) c
      ↔ ∃ i < m, ∃ j < m, s = stroke (.ofNat m) (.ofNat q) c (.ofNat i) (.ofNat j) := by
  obtain ⟨hcolumns, hrows⟩ := steps_eq (m := m) q hc
  simp only [moduleStrokes, hcolumns, hrows, List.flatMap_map, List.mem_flatMap, List.mem_range,
    List.mem_singleton]
  exact ⟨fun ⟨j, hj, i, hi, h⟩ => ⟨i, hi, j, hj, h⟩, fun ⟨i, hi, j, hj, h⟩ => ⟨j, hj, i, hi, h⟩⟩

section Room

variable (fits : side modules.columns m q * side modules.length m q ≤ Bitmap.capacity)
include fits

/-- The call for a pixel of a dark module goes to a pixel of the image. -/
lemma goesTo_pixel {c : Cell} (hc : c ∈ modules.darkCells) {i j : ℕ} (hi : i < m) (hj : j < m) :
    (stroke (.ofNat m) (.ofNat q) c (.ofNat i) (.ofNat j)).GoesTo (q + c.x * m + i)
      (q + c.y * m + j) := by
  obtain ⟨hx, hy⟩ := pixel_lt_side q hc hi hj
  obtain ⟨hwidth, hheight⟩ :=
    Bitmap.lt_of_fits (Nat.zero_lt_of_lt hx) (Nat.zero_lt_of_lt hy) fits
  exact goesTo_stroke (hx.trans hwidth) (hy.trans hheight)

/-- **The calls go to the pixels with ink.** -/
theorem exists_stroke_iff (hm : 0 < m) (i j : ℕ) :
    (∃ s ∈ strokes modules (.ofNat m) (.ofNat q) (side modules.columns m q)
        (side modules.length m q), s.GoesTo i j)
      ↔ ink modules.columns modules.isDark m q i j = true := by
  constructor
  · rintro ⟨s, hs, h⟩
    obtain ⟨c, hc, hs⟩ := List.mem_flatMap.mp hs
    obtain ⟨k, hk, l, hl, rfl⟩ := (mem_moduleStrokes hc).mp hs
    obtain ⟨rfl, rfl⟩ := h.eq (goesTo_pixel fits hc hk hl)
    exact ink_pixel hc hk hl
  · intro hink
    simp only [ink, Bool.and_eq_true, decide_eq_true_eq] at hink
    obtain ⟨⟨⟨hi, hj⟩, hx⟩, hdark⟩ := hink
    have hc : (⟨(i - q) / m, (j - q) / m⟩ : Cell) ∈ modules.darkCells :=
      Modules.mem_darkCells.mpr ⟨hx, hdark⟩
    have hgoes := goesTo_pixel fits hc (Nat.mod_lt (i - q) hm) (Nat.mod_lt (j - q) hm)
    rw [Nat.add_assoc, Nat.add_assoc, Nat.div_add_mod', Nat.div_add_mod', Nat.add_sub_cancel' hi,
      Nat.add_sub_cancel' hj] at hgoes
    refine ⟨_, List.mem_flatMap.mpr ⟨_, hc, (mem_moduleStrokes hc).mpr ?_⟩, hgoes⟩
    exact ⟨_, Nat.mod_lt _ hm, _, Nat.mod_lt _ hm, rfl⟩

/-- **The image after the calls** shows the ink. -/
theorem run_strokes (hm : 0 < m) (hw : 0 < side modules.columns m q)
    (hh : 0 < side modules.length m q) :
    (Bitmap.ofFn _ _ hw hh fits fun _ _ => false).run
        (strokes modules (.ofNat m) (.ofNat q) (side modules.columns m q)
          (side modules.length m q))
      = Bitmap.ofFn _ _ hw hh fits (ink modules.columns modules.isDark m q) := by
  rw [Bitmap.run_blank hw hh fits value_of_mem_strokes]
  exact Bitmap.ofFn_congr hw hh fits fun i _ j _ =>
    Bool.eq_iff_iff.mpr (decide_eq_true_iff.trans (exists_stroke_iff fits hm i j))

/-- One round of the outer loop. -/
lemma paintModule_eq_run {c : Cell} (hc : c ∈ modules.darkCells) {b : Bitmap}
    (hwidth : b.width = side modules.columns m q) (hheight : b.height = side modules.length m q) :
    paintModule (.ofNat m) (.ofNat q) b c
      = .ok (b.run (moduleStrokes (.ofNat m) (.ofNat q) (side modules.columns m q)
          (side modules.length m q) c)) := by
  obtain ⟨hcolumns, hrows⟩ := steps_eq (m := m) q hc
  rw [paintModule, moduleStrokes, hheight]
  refine Bitmap.foldlM_eq_run fun dy hdy b' hw hh => ?_
  rw [hw, hwidth]
  refine Bitmap.foldlM_eq_run fun dx hdx b'' hw' hh' => ?_
  rw [hrows] at hdy
  rw [hcolumns] at hdx
  obtain ⟨j, hj, rfl⟩ := List.mem_map.mp hdy
  obtain ⟨i, hi, rfl⟩ := List.mem_map.mp hdx
  rw [List.mem_range] at hi hj
  obtain ⟨hx, hy⟩ := pixel_lt_side q hc hi hj
  refine Bitmap.set_eq_run ?_ ?_ (goesTo_pixel fits hc hi hj)
  · rwa [hw', hw, hwidth]
  · rwa [hh', hh, hheight]

end Room

/-! ### Painting with natural numbers -/

/-- The length of a side of the image. -/
lemma carries_extent (n m q : ℕ) :
    (extent n (.ofNat m) (.ofNat q)).Carries (side n m q) :=
  (Number.carries_ofNat_mul n m).add (Number.carries_ofNat_mul 2 q)

/-- What cannot be blank is refused for the same reason as a drawing. -/
lemma blank_eq_refusal {x y : Number}
    (h : ∀ w h, x.toNat? = some w → y.toNat? = some h → 0 < w → 0 < h →
      ¬ w * h ≤ Bitmap.capacity) :
    Bitmap.blank x y = .error (refusal x y) := by
  rw [Bitmap.blank, Bitmap.draw, refusal]
  cases hx : x.toNat? with
  | none => rfl
  | some w =>
    cases hy : y.toNat? with
    | none => cases w <;> rfl
    | some l =>
      -- A vanishing side is refused for the sides, all others for their storage.
      cases w with
      | zero => exact dif_neg fun hpos => absurd hpos.1 (Nat.lt_irrefl 0)
      | succ w =>
        cases l with
        | zero => exact dif_neg fun hpos => absurd hpos.2 (Nat.lt_irrefl 0)
        | succ l =>
          have hfits := h _ _ hx hy w.succ_pos l.succ_pos
          exact (dif_pos ⟨w.succ_pos, l.succ_pos⟩).trans (dif_neg hfits)

/-- **The loops draw squares**: they set the pixels with ink, and there is an image whenever there
is room for it. -/
theorem paint_eq_squares (modules : Modules) (hm : 0 < m) :
    paint modules (.ofNat m) (.ofNat q) = squares modules m q := by
  have hwidth := carries_extent modules.columns m q
  have hheight := carries_extent modules.length m q
  rw [paint, squares]
  by_cases room : (0 < side modules.columns m q ∧ 0 < side modules.length m q)
      ∧ side modules.columns m q * side modules.length m q ≤ Bitmap.capacity
  · obtain ⟨⟨hw, hh⟩, fits⟩ := id room
    obtain ⟨hwlt, hhlt⟩ := Bitmap.lt_of_fits hw hh fits
    have hblank := Bitmap.draw_ofNat hw hh fun _ _ => false
    have hloops := Bitmap.foldlM_eq_run (b := Bitmap.ofFn _ _ hw hh fits fun _ _ => false)
      fun c hc b' hb hb' => paintModule_eq_run fits hc hb hb'
    rw [dif_pos fits, ← Bitmap.blank] at hblank
    rw [dif_pos room, hwidth.eq_of_lt hwlt, hheight.eq_of_lt hhlt, hblank]
    rw [← strokes, run_strokes fits hm hw hh] at hloops
    rw [funext₂ (getD_toArray modules)]
    exact hloops
  · rw [dif_neg room]
    refine congrArg (Bind.bind · _) (blank_eq_refusal fun w h hw hh hwpos hhpos fits => room ?_)
    -- Sides that are read back with room for their cells have not been rounded.
    obtain ⟨hwlt, hhlt⟩ := Bitmap.lt_of_fits hwpos hhpos fits
    obtain rfl : w = _ := (hwidth.eq_or_le_of_toNat? hw).resolve_right (by omega)
    obtain rfl : h = _ := (hheight.eq_or_le_of_toNat? hh).resolve_right (by omega)
    exact ⟨⟨hwpos, hhpos⟩, fits⟩

end Drawing

end MatrixSymbol
