/-
Pixel buffers painted cell by cell (`bitMatrixToImageData`, section 3.6 of the specification).

The loops of `PixelBuffer.paint` go through the on cells, through the rows and columns of each, and
through the three colour bytes of each pixel.

* `PixelBuffer.writes`: the bytes they write, in order; `PixelBuffer.foldl_writes`: the buffer after
  them;
* `PixelBuffer.pixelOf`: the place of a pixel of a cell, for natural numbers;
  `PixelBuffer.cell_of_pixelOf_eq`: different pixels have different places;
* `PixelBuffer.mem_marks_iff`, `PixelBuffer.exists_of_mem_writes`, `PixelBuffer.nodup_writes`: the
  bytes that are written are the colour bytes of the black pixels, each of them once;
* `PixelBuffer.paint_eq_squares`: the loops paint squares.
-/
import MatrixSymbol.PixelBuffer
import MatrixSymbol.Proofs.Arithmetic
import MatrixSymbol.Proofs.Raster

namespace MatrixSymbol

/-- Positions with the same place in row order are the same. -/
lemma Bitmap.eq_of_place_eq {w x y x' y' : ℕ} (hx : x < w) (hx' : x' < w)
    (h : y * w + x = y' * w + x') : x = x' ∧ y = y' :=
  ⟨by rw [← place_mod hx y, h, place_mod hx'], by rw [← place_div hx y, h, place_div hx']⟩

namespace PixelBuffer

/-! ### Writing bytes -/

/-- A byte that is written is in the buffer if its number is a natural one below the length. -/
lemma getElem?_blacken (data : Array UInt8) (x : Number) (i : ℕ) :
    (blacken data x)[i]? = if x.toNat? = some i ∧ i < data.size then some 0 else data[i]? := by
  rw [blacken]
  split
  · next j hj =>
    rw [Array.getElem?_setIfInBounds]
    simp only [hj, Option.some.injEq]
    by_cases hji : j = i
    · subst hji
      by_cases hlt : j < data.size
      · rw [if_pos rfl, if_pos hlt, if_pos ⟨rfl, hlt⟩]
      · rw [if_pos rfl, if_neg hlt, if_neg fun h => hlt h.2, Array.getElem?_eq_none (by omega)]
    · rw [if_neg hji, if_neg fun h => hji h.1]
  · next hnone => rw [if_neg fun h => by rw [hnone] at h; cases h.1]

lemma size_blacken (data : Array UInt8) (x : Number) : (blacken data x).size = data.size := by
  rw [blacken]
  split
  · exact Array.size_setIfInBounds
  · rfl

/-- **After a run of writes the written bytes are zero**, and all others are as before. -/
theorem getElem?_foldl_blacken (l : List Number) (data : Array UInt8) (i : ℕ) :
    (l.foldl blacken data)[i]?
      = if (∃ x ∈ l, x.toNat? = some i) ∧ i < data.size then some 0 else data[i]? := by
  induction l generalizing data with
  | nil => simp
  | cons x l ih =>
    rw [List.foldl_cons, ih, size_blacken, getElem?_blacken]
    simp only [List.exists_mem_cons_iff]
    -- All writes are zeros, so what a later one writes again does not depend on `x`.
    by_cases hrest : ∃ y ∈ l, y.toNat? = some i
    · by_cases hlt : i < data.size
      · rw [if_pos ⟨hrest, hlt⟩, if_pos ⟨.inr hrest, hlt⟩]
      · rw [if_neg fun h => hlt h.2, if_neg fun h => hlt h.2, if_neg fun h => hlt h.2]
    · rw [if_neg fun h => hrest h.1]
      exact if_congr (by rw [or_iff_left hrest]) rfl rfl

/-! ### The bytes of the loops -/

/-- The first byte of a pixel of a cell. -/
def byteOf (scale quiet width : Number) (c : Cell) (sx sy : Number) : Number :=
  (((.ofNat c.y + quiet) * scale + sy) * width + ((.ofNat c.x + quiet) * scale + sx)) * 4

/-- The bytes that are written for a cell, in order. -/
def cellWrites (scale quiet width : Number) (c : Cell) : List Number :=
  (stepsBelow scale).flatMap fun sy => (stepsBelow scale).flatMap fun sx =>
    [byteOf scale quiet width c sx sy, byteOf scale quiet width c sx sy + 1,
      byteOf scale quiet width c sx sy + 2]

/-- The bytes that are written for a bitmap, in order. -/
def writes (b : Bitmap) (scale quiet : Number) : List Number :=
  (onCells b).flatMap (cellWrites scale quiet ((.ofNat b.width + 2 * quiet) * scale))

lemma paintCell_eq (scale quiet width : Number) (data : Array UInt8) (c : Cell) :
    paintCell scale quiet width data c = (cellWrites scale quiet width c).foldl blacken data := by
  simp only [cellWrites, List.foldl_flatMap, List.foldl_cons, List.foldl_nil]
  rfl

/-- The loops write these bytes one after the other. -/
lemma foldl_paintCell (b : Bitmap) (scale quiet : Number) (data : Array UInt8) :
    (onCells b).foldl (paintCell scale quiet ((.ofNat b.width + 2 * quiet) * scale)) data
      = (writes b scale quiet).foldl blacken data := by
  rw [writes, List.foldl_flatMap]
  exact congrFun (congrFun (congrArg List.foldl
    (funext₂ fun data c => paintCell_eq scale quiet _ data c)) data) _

/-! ### Natural numbers -/

/-- The steps below a natural number. -/
lemma stepsBelow_ofNat (s : ℕ) : stepsBelow (.ofNat s) = (List.range s).map .ofNat := by
  have hceil : (s : ℚ).ceil = s := by
    rw [← Int.cast_natCast, Rat.ceil_intCast]
  rw [Number.ofNat_eq_finite, stepsBelow, Number.toRat?]
  simp only [hceil, Int.toNat_natCast]

lemma mem_onCells {b : Bitmap} {c : Cell} : c ∈ onCells b ↔ b.isOn c.x c.y = true := by
  obtain ⟨x, y⟩ := c
  simp only [onCells, List.mem_flatMap, List.mem_filterMap, List.mem_range]
  constructor
  · rintro ⟨j, -, i, -, h⟩
    split_ifs at h with hon
    obtain ⟨rfl, rfl⟩ := Cell.mk.inj (Option.some.inj h)
    exact hon
  · intro hon
    obtain ⟨hx, hy⟩ := Bitmap.lt_of_isOn hon
    exact ⟨y, hy, x, hx, if_pos hon⟩

lemma nodup_onCells (b : Bitmap) : (onCells b).Nodup := by
  refine List.nodup_flatMap.mpr ⟨fun y _ => ?_, ?_⟩
  · refine List.nodup_range.filterMap fun x x' c hc hc' => ?_
    simp only [Option.mem_def, Option.ite_none_right_eq_some, Option.some.injEq] at hc hc'
    exact (Cell.mk.inj (hc.2.trans hc'.2.symm)).1
  · refine List.nodup_range.pairwise_of_forall_ne fun y _ y' _ hne c hc hc' => hne ?_
    simp only [List.mem_filterMap, Option.ite_none_right_eq_some, Option.some.injEq] at hc hc'
    obtain ⟨x, -, -, rfl⟩ := hc
    obtain ⟨x', -, -, h⟩ := hc'
    exact (Cell.mk.inj h).2.symm

/-- The place of a pixel of a cell, in column `i` and row `j` of the cell, in an image of width `w`.
-/
def pixelOf (s q w : ℕ) (c : Cell) (i j : ℕ) : ℕ := ((c.y + q) * s + j) * w + ((c.x + q) * s + i)

/-- The colour bytes of the pixels of the on cells. -/
def marks (b : Bitmap) (s q : ℕ) : List ℕ :=
  (onCells b ×ˢ List.range s ×ˢ List.range s ×ˢ List.range 3).map fun (c, j, i, k) =>
    pixelOf s q ((b.width + 2 * q) * s) c i j * 4 + k

lemma mem_marks {b : Bitmap} {s q n : ℕ} :
    n ∈ marks b s q ↔ ∃ c i j k, b.isOn c.x c.y = true ∧ i < s ∧ j < s ∧ k < 3
      ∧ pixelOf s q ((b.width + 2 * q) * s) c i j * 4 + k = n := by
  simp only [marks, List.mem_map, Prod.exists, List.mem_product, mem_onCells, List.mem_range]
  constructor
  · rintro ⟨c, j, i, k, ⟨hc, hj, hi, hk⟩, h⟩
    exact ⟨c, i, j, k, hc, hi, hj, hk, h⟩
  · rintro ⟨c, i, j, k, hc, hi, hj, hk, h⟩
    exact ⟨c, j, i, k, ⟨hc, hj, hi, hk⟩, h⟩

/-- The pixels of a cell lie inside the margins. -/
lemma pixel_lt {x n i s : ℕ} (q : ℕ) (hx : x < n) (hi : i < s) :
    (x + q) * s + i < (n + 2 * q) * s :=
  calc (x + q) * s + i < (x + q + 1) * s := by rw [Nat.succ_mul]; omega
    _ ≤ (n + 2 * q) * s := Nat.mul_le_mul_right s (by omega)

/-- So a pixel of an on cell has its place in the image. -/
lemma pixelOf_lt {b : Bitmap} {s : ℕ} (q : ℕ) {c : Cell} {i j : ℕ}
    (hc : b.isOn c.x c.y = true) (hi : i < s) (hj : j < s) :
    pixelOf s q ((b.width + 2 * q) * s) c i j < (b.width + 2 * q) * s * ((b.height + 2 * q) * s) :=
  Bitmap.place_lt (pixel_lt q (Bitmap.lt_of_isOn hc).1 hi)
    (pixel_lt q (Bitmap.lt_of_isOn hc).2 hj)

/-- **Different pixels of cells have different places.** -/
theorem cell_of_pixelOf_eq {b : Bitmap} {s q : ℕ} {c c' : Cell} {i i' j j' : ℕ}
    (hc : b.isOn c.x c.y = true) (hc' : b.isOn c'.x c'.y = true) (hi : i < s) (hi' : i' < s)
    (hj : j < s) (hj' : j' < s)
    (h : pixelOf s q ((b.width + 2 * q) * s) c i j
      = pixelOf s q ((b.width + 2 * q) * s) c' i' j') : c = c' ∧ i = i' ∧ j = j' := by
  obtain ⟨hcolumn, hrow⟩ := Bitmap.eq_of_place_eq (pixel_lt q (Bitmap.lt_of_isOn hc).1 hi)
    (pixel_lt q (Bitmap.lt_of_isOn hc').1 hi') h
  obtain ⟨hi, hx⟩ := Bitmap.eq_of_place_eq hi hi' hcolumn
  obtain ⟨hj, hy⟩ := Bitmap.eq_of_place_eq hj hj' hrow
  obtain ⟨x, y⟩ := c
  obtain ⟨x', y'⟩ := c'
  obtain rfl := Nat.add_right_cancel hx
  obtain rfl := Nat.add_right_cancel hy
  exact ⟨rfl, hi, hj⟩

/-- So no byte is marked twice. -/
lemma nodup_marks (b : Bitmap) (s q : ℕ) : (marks b s q).Nodup := by
  refine List.Nodup.map_on ?_ ((nodup_onCells b).product
    (List.nodup_range.product (List.nodup_range.product List.nodup_range)))
  rintro ⟨c, j, i, k⟩ h ⟨c', j', i', k'⟩ h' heq
  simp only [List.mem_product, mem_onCells, List.mem_range] at h h'
  obtain ⟨hc, hj, hi, hk⟩ := h
  obtain ⟨hc', hj', hi', hk'⟩ := h'
  dsimp only at heq
  have hplace : pixelOf s q ((b.width + 2 * q) * s) c i j
      = pixelOf s q ((b.width + 2 * q) * s) c' i' j' := by omega
  obtain ⟨rfl, rfl, rfl⟩ := cell_of_pixelOf_eq hc hc' hi hi' hj hj' hplace
  obtain rfl : k = k' := by omega
  rfl

/-- A pixel of a cell has the colour of the cell. -/
lemma isBlack_pixel (b : Bitmap) {s : ℕ} (q x y : ℕ) {i j : ℕ} (hi : i < s) (hj : j < s) :
    isBlack b s q ((x + q) * s + i) ((y + q) * s + j) = b.isOn x y := by
  rw [isBlack, Bitmap.place_div hi, Bitmap.place_div hj, Nat.add_sub_cancel, Nat.add_sub_cancel,
    decide_eq_true (Nat.le_add_left q x), decide_eq_true (Nat.le_add_left q y)]
  rfl

/-- **The marked bytes are the colour bytes of the black pixels.** -/
theorem mem_marks_iff {b : Bitmap} {s q px k : ℕ} (py : ℕ) (hs : 0 < s)
    (hpx : px < (b.width + 2 * q) * s) (hk : k < 4) :
    (py * ((b.width + 2 * q) * s) + px) * 4 + k ∈ marks b s q
      ↔ k < 3 ∧ isBlack b s q px py = true := by
  rw [mem_marks]
  constructor
  · rintro ⟨c, i, j, k', hc, hi, hj, hk', h⟩
    have hplace : pixelOf s q ((b.width + 2 * q) * s) c i j
        = py * ((b.width + 2 * q) * s) + px := by omega
    obtain ⟨rfl, rfl⟩ :=
      Bitmap.eq_of_place_eq (pixel_lt q (Bitmap.lt_of_isOn hc).1 hi) hpx hplace
    refine ⟨by omega, ?_⟩
    rwa [isBlack_pixel b q _ _ hi hj]
  · rintro ⟨hk, hblack⟩
    simp only [isBlack, Bool.and_eq_true, decide_eq_true_eq] at hblack
    obtain ⟨⟨hx, hy⟩, hon⟩ := hblack
    refine ⟨⟨px / s - q, py / s - q⟩, px % s, py % s, k, hon, Nat.mod_lt _ hs, Nat.mod_lt _ hs, hk,
      ?_⟩
    rw [pixelOf, Nat.sub_add_cancel hx, Nat.sub_add_cancel hy, Nat.div_add_mod', Nat.div_add_mod']

/-! ### Painting with natural numbers -/

/-- The length of a buffer with natural sides. -/
lemma length_eq {width height : Number} {w h : ℕ} (hwidth : width.Carries w)
    (hheight : height.Carries h) (hw : 0 < w) (hh : 0 < h) :
    length width height
      = if w * h * 4 ≤ Bitmap.capacity then .ok (w * h * 4) else .error .storage := by
  have hsize : (width * height * 4).Carries (w * h * 4) :=
    (hwidth.mul hheight hw hh).mul (Number.carries_ofNat 4) (Nat.mul_pos hw hh) (by norm_num)
  rw [length]
  generalize width * height * 4 = x at hsize ⊢
  generalize w * h * 4 = n at hsize ⊢
  obtain hlt | hle := lt_or_ge n (2 ^ 53)
  · have hsign : ¬ (n : ℚ) ≤ -1 := fun h => absurd (n.cast_nonneg (α := ℚ)) (by linarith)
    have hfloor : (n : ℚ).floor = n := by rw [← Int.cast_natCast, Rat.floor_intCast]
    rw [hsize.eq_of_lt hlt, Number.ofNat_eq_finite]
    simp only [hsign, if_false, hfloor, Int.toNat_natCast, ← not_le, ite_not, Nat.cast_le]
  · have hlarge : ¬ n ≤ Bitmap.capacity := by rw [Bitmap.capacity]; omega
    rw [if_neg hlarge]
    cases hsize.atLeast_of_le hle with
    | infinite => rfl
    | @finite q h =>
      have hsign : ¬ q ≤ -1 := fun h' => absurd (h.trans h') (by norm_num)
      have hfloor : (Bitmap.capacity : ℤ) < q.floor := by
        have hlong : ((2 ^ 53 : ℕ) : ℤ) ≤ q.floor := Rat.le_floor_iff.mpr (by exact_mod_cast h)
        exact lt_of_lt_of_le (by decide) hlong
      simp only [hsign, if_false, hfloor, if_true]

variable {s q : ℕ}

/-- A side of the image, margins included. -/
lemma carries_side {n : ℕ} (q : ℕ) (hn : 0 < n) (hs : 0 < s) :
    ((Number.ofNat n + 2 * Number.ofNat q) * Number.ofNat s).Carries ((n + 2 * q) * s) :=
  ((Number.carries_ofNat n).add (Number.carries_ofNat_mul 2 q)).mul (Number.carries_ofNat s)
    (by omega) hs

section Fits

variable {b : Bitmap}
  (fits : (b.width + 2 * q) * s * ((b.height + 2 * q) * s) * 4 ≤ Bitmap.capacity)
include fits

/-- The first byte of a pixel, as long as the image can be stored. -/
lemma byteOf_ofNat {c : Cell} (hc : b.isOn c.x c.y = true) {i j : ℕ} (hi : i < s) (hj : j < s) :
    byteOf (.ofNat s) (.ofNat q) (.ofNat ((b.width + 2 * q) * s)) c (.ofNat i) (.ofNat j)
      = .ofNat (pixelOf s q ((b.width + 2 * q) * s) c i j * 4) := by
  obtain ⟨hx, hy⟩ := Bitmap.lt_of_isOn hc
  have hpx := pixel_lt q hx hi
  have hpy := pixel_lt q hy hj
  have hplace := pixelOf_lt q hc hi hj
  obtain ⟨hcolumn, hrow⟩ :=
    Bitmap.lt_of_fits (Nat.zero_lt_of_lt hpx) (Nat.zero_lt_of_lt hpy) (by omega)
  have hx' := Nat.le_mul_of_pos_right (c.x + q) (Nat.zero_lt_of_lt hi)
  have hy' := Nat.le_mul_of_pos_right (c.y + q) (Nat.zero_lt_of_lt hi)
  rw [Bitmap.capacity] at fits
  rw [pixelOf] at hplace
  rw [byteOf, pixelOf, Number.ofNat_add (by omega), Number.ofNat_add (by omega),
    Number.ofNat_mul (by omega), Number.ofNat_mul (by omega), Number.ofNat_add (by omega),
    Number.ofNat_add (by omega), Number.ofNat_mul (by omega), Number.ofNat_add (by omega)]
  exact Number.ofNat_mul (n := 4) (by omega)

/-- The bytes of the loops are the marked ones, as long as the image can be stored. -/
lemma writes_ofNat (hs : 0 < s) :
    writes b (.ofNat s) (.ofNat q) = (marks b s q).map .ofNat := by
  have hwidth : (.ofNat b.width + 2 * .ofNat q) * .ofNat s
      = Number.ofNat ((b.width + 2 * q) * s) := by
    have hwidth : 0 < (b.width + 2 * q) * s := Nat.mul_pos (Nat.add_pos_left b.width_pos _) hs
    have hheight : 0 < (b.height + 2 * q) * s := Nat.mul_pos (Nat.add_pos_left b.height_pos _) hs
    exact (carries_side q b.width_pos hs).eq_of_lt
      (Bitmap.lt_of_fits hwidth hheight (by omega)).1
  rw [writes, hwidth, marks]
  simp only [SProd.sprod, List.product, List.map_flatMap, List.map_map]
  refine List.flatMap_congr fun c hc => ?_
  rw [mem_onCells] at hc
  rw [cellWrites, stepsBelow_ofNat]
  simp only [List.flatMap_map]
  refine List.flatMap_congr fun j hj => List.flatMap_congr fun i hi => ?_
  rw [List.mem_range] at hi hj
  have hplace := pixelOf_lt q hc hi hj
  rw [Bitmap.capacity] at fits
  rw [byteOf_ofNat fits hc hi hj]
  set place := pixelOf s q ((b.width + 2 * q) * s) c i j
  have hgreen : Number.ofNat (place * 4) + 1 = .ofNat (place * 4 + 1) :=
    Number.ofNat_add (n := 1) (by omega)
  have hblue : Number.ofNat (place * 4) + 2 = .ofNat (place * 4 + 2) :=
    Number.ofNat_add (n := 2) (by omega)
  rw [hgreen, hblue]
  rfl

/-- **No byte is written twice.** -/
theorem nodup_writes (hs : 0 < s) : (writes b (.ofNat s) (.ofNat q)).Nodup := by
  rw [writes_ofNat fits hs]
  exact (nodup_marks b s q).map fun m n h => by simpa [Number.ofNat] using h

/-- **All bytes that are written are colour bytes of black pixels of the image.** -/
theorem exists_of_mem_writes (hs : 0 < s) {x : Number}
    (hx : x ∈ writes b (.ofNat s) (.ofNat q)) :
    ∃ px < (b.width + 2 * q) * s, ∃ py < (b.height + 2 * q) * s, ∃ k < 3,
      isBlack b s q px py = true
        ∧ x = .ofNat ((py * ((b.width + 2 * q) * s) + px) * 4 + k) := by
  rw [writes_ofNat fits hs] at hx
  obtain ⟨n, hn, rfl⟩ := List.mem_map.mp hx
  obtain ⟨c, i, j, k, hc, hi, hj, hk, rfl⟩ := mem_marks.mp hn
  obtain ⟨hcx, hcy⟩ := Bitmap.lt_of_isOn hc
  exact ⟨_, pixel_lt q hcx hi, _, pixel_lt q hcy hj, k, hk,
    (isBlack_pixel b q _ _ hi hj).trans hc, rfl⟩

/-- The buffer after the loops. -/
lemma foldl_writes (hs : 0 < s) :
    (writes b (.ofNat s) (.ofNat q)).foldl blacken
        (Array.replicate ((b.width + 2 * q) * s * ((b.height + 2 * q) * s) * 4) 255)
      = Array.ofFn fun i : Fin ((b.width + 2 * q) * s * ((b.height + 2 * q) * s) * 4) =>
        if i.val % 4 < 3 && isBlack b s q (i.val / 4 % ((b.width + 2 * q) * s))
            (i.val / 4 / ((b.width + 2 * q) * s)) then 0
        else 255 := by
  have hw : 0 < (b.width + 2 * q) * s := Nat.mul_pos (Nat.add_pos_left b.width_pos _) hs
  refine Array.ext_getElem? fun n => ?_
  rw [getElem?_foldl_blacken, Array.size_replicate, Array.getElem?_replicate,
    Array.getElem?_ofFn]
  by_cases hn : n < (b.width + 2 * q) * s * ((b.height + 2 * q) * s) * 4
  · have hmark := mem_marks_iff (b := b) (q := q) (n / 4 / ((b.width + 2 * q) * s)) hs
      (Nat.mod_lt (n / 4) hw) (Nat.mod_lt n (by norm_num))
    rw [Nat.div_add_mod', Nat.div_add_mod'] at hmark
    have hwritten : (∃ x ∈ writes b (.ofNat s) (.ofNat q), x.toNat? = some n)
        ↔ n ∈ marks b s q := by
      rw [writes_ofNat fits hs]
      simp
    rw [dif_pos hn, if_pos hn]
    by_cases hmem : n ∈ marks b s q
    · obtain ⟨hk, hblack⟩ := hmark.mp hmem
      rw [if_pos ⟨hwritten.mpr hmem, hn⟩, if_pos]
      rw [decide_eq_true hk, hblack]
      rfl
    · rw [if_neg fun h => hmem (hwritten.mp h.1), if_neg]
      rw [Bool.and_eq_true, decide_eq_true_eq]
      exact fun h => hmem (hmark.mpr h)
  · rw [if_neg fun h => hn h.2, if_neg hn, dif_neg hn]

end Fits

/-- **The loops paint squares**: the black pixels are those of the on cells, and there is an image
whenever its bytes can be stored. -/
theorem paint_eq_squares (b : Bitmap) (hs : 0 < s) :
    paint b (.ofNat s) (.ofNat q) = squares b s q := by
  have hw := carries_side q b.width_pos hs
  have hh := carries_side q b.height_pos hs
  have hwpos : 0 < (b.width + 2 * q) * s := Nat.mul_pos (Nat.add_pos_left b.width_pos _) hs
  have hhpos : 0 < (b.height + 2 * q) * s := Nat.mul_pos (Nat.add_pos_left b.height_pos _) hs
  rw [paint, length_eq hw hh hwpos hhpos, squares]
  by_cases fits : (b.width + 2 * q) * s * ((b.height + 2 * q) * s) * 4 ≤ Bitmap.capacity
  · have hsize : (b.width + 2 * q) * s * ((b.height + 2 * q) * s) * 4 ≠ 0 := by positivity
    obtain ⟨hwlt, hhlt⟩ := Bitmap.lt_of_fits hwpos hhpos (by omega)
    have hdata := foldl_writes fits hs
    rw [← foldl_paintCell] at hdata
    rw [if_pos fits, if_pos fits]
    simp only [bind, Except.bind, pure, Except.pure, if_neg hsize, hdata]
    rw [hw.eq_of_lt hwlt, hh.eq_of_lt hhlt]
  · rw [if_neg fits, if_neg fits]
    rfl

end PixelBuffer

end MatrixSymbol
