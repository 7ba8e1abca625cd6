/-
Drawings of modules as squares of pixels, seen from their pixels (`renderModules`).

* `Drawn`: an image shows modules as squares inside a margin; `Drawing.render_eq`: drawing gives
  such an image whenever there is room for one;
* `Drawn.isOn_module`, `Drawn.isOn_offset`: the pixels of one module, and all pixels by their
  distance from the margin;
* `Drawn.firstOn?_eq`, `Drawn.lastOn?_eq`: the first and the last dark pixel of a drawing with a
  dark module in the top left and in the bottom right corner; `Drawn.isOn_corner`: the pixels there.
-/
import MatrixSymbol.Drawing
import MatrixSymbol.Proofs.Raster

namespace MatrixSymbol

/-! ### Lines of modules -/

namespace Modules

/-- The top row of modules. -/
def topRow (modules : Modules) : List Bool := modules.headD []

/-- The left column of modules; where a row has none, it is light. -/
def leftColumn (modules : Modules) : List Bool := modules.map fun row => row.getD 0 false

/-- The first modules of the diagonal from the top left corner. -/
def diagonal (modules : Modules) (n : ℕ) : List Bool :=
  (List.range n).map fun k => modules.isDark k k

variable (modules : Modules)

lemma length_topRow : modules.topRow.length = modules.columns := rfl

lemma getD_topRow (k : ℕ) : modules.topRow.getD k false = modules.isDark k 0 := by
  cases modules <;> rfl

lemma length_leftColumn : modules.leftColumn.length = modules.length := List.length_map _

lemma getD_leftColumn (k : ℕ) : modules.leftColumn.getD k false = modules.isDark 0 k := by
  rw [leftColumn, isDark, List.getD_eq_getElem?_getD, List.getElem?_map,
    List.getD_eq_getElem?_getD (l := modules)]
  cases modules[k]? <;> rfl

lemma getD_diagonal {n k : ℕ} (hk : k < n) :
    (modules.diagonal n).getD k false = modules.isDark k k := by
  rw [diagonal, List.getD_eq_getElem?_getD, List.getElem?_map, List.getElem?_range hk]
  rfl

variable {modules}

/-- There are no dark modules below the last row. -/
lemma lt_length_of_isDark {x y : ℕ} (h : modules.isDark x y = true) : y < modules.length := by
  by_contra hy
  rw [isDark, List.getD_eq_getElem?_getD (l := modules), List.getElem?_eq_none (not_lt.mp hy)] at h
  cases h

/-- Modules with a column have a row. -/
lemma isEmpty_eq_false (h : 0 < modules.columns) : modules.isEmpty = false := by
  cases modules with
  | nil => cases h
  | cons row rows => rfl

end Modules

/-! ### Drawings -/

/-- An image shows modules as squares of `m` pixels a side inside a light margin of `q` pixels. -/
structure Drawn (modules : Modules) (m q : ℕ) (image : Bitmap) : Prop where
  size_pos : 0 < m
  width_eq : image.width = Drawing.side modules.columns m q
  height_eq : image.height = Drawing.side modules.length m q
  isOn_eq : ∀ i j, image.isOn i j = Drawing.ink modules.columns modules.isDark m q i j

namespace Drawing

/-- The table that the drawing looks modules up in holds these modules. -/
lemma getD_toArray (modules : Modules) (x y : ℕ) :
    ((modules.map List.toArray).toArray.getD y #[]).getD x false = modules.isDark x y := by
  have hrow : (modules.map List.toArray).toArray.getD y #[] = (modules.getD y []).toArray := by
    rw [Array.getD_eq_getD_getElem?, List.getElem?_toArray, List.getElem?_map,
      List.getD_eq_getElem?_getD]
    cases modules[y]? <;> rfl
  rw [hrow, Modules.isDark, Array.getD_eq_getD_getElem?, List.getElem?_toArray,
    ← List.getD_eq_getElem?_getD]

/-- Ink lies between the margins. -/
lemma mem_of_ink {modules : Modules} {m q i j : ℕ} (hm : 0 < m)
    (hink : ink modules.columns modules.isDark m q i j = true) :
    (q ≤ i ∧ i < q + modules.columns * m) ∧ q ≤ j ∧ j < q + modules.length * m := by
  simp only [ink, Bool.and_eq_true, decide_eq_true_eq] at hink
  obtain ⟨⟨⟨hi, hj⟩, hx⟩, hy⟩ := hink
  have hx' := (Nat.div_lt_iff_lt_mul hm).mp hx
  have hy' := (Nat.div_lt_iff_lt_mul hm).mp (Modules.lt_length_of_isDark hy)
  omega

variable {modules : Modules} {m q : ℕ} (hm : 0 < m) (hcolumns : 0 < modules.columns)
include hm hcolumns

/-- **Drawing shows the modules**, if there is room for a drawing with its margins. -/
theorem render_eq
    (fits : side modules.columns m q * side modules.length m q ≤ Bitmap.capacity) :
    ∃ image, render modules (.ofNat m) (.ofNat q) = .ok image ∧ Drawn modules m q image := by
  obtain ⟨n, rfl⟩ : ∃ n, m = n + 1 := ⟨m - 1, by omega⟩
  have hempty := Modules.isEmpty_eq_false hcolumns
  have hlength : 0 < modules.length :=
    List.length_pos_iff.mpr (List.isEmpty_eq_false_iff.mp hempty)
  have hwidth : 0 < side modules.columns (n + 1) q :=
    Nat.add_pos_left (Nat.mul_pos hcolumns hm) _
  have hheight : 0 < side modules.length (n + 1) q := Nat.add_pos_left (Nat.mul_pos hlength hm) _
  rw [render_ofNat hempty, squares, dif_pos ⟨⟨hwidth, hheight⟩, fits⟩]
  refine ⟨_, rfl, hm, rfl, rfl, ?_⟩
  intro i j
  rw [Bitmap.isOn_ofFn, funext₂ (getD_toArray modules)]
  cases hink : ink modules.columns modules.isDark (n + 1) q i j with
  | false => exact Bool.and_false _
  | true =>
    obtain ⟨⟨-, hi⟩, -, hj⟩ := mem_of_ink hm hink
    have hiw : i < side modules.columns (n + 1) q := by rw [side]; omega
    have hjh : j < side modules.length (n + 1) q := by rw [side]; omega
    rw [decide_eq_true hiw, decide_eq_true hjh]
    rfl

/-- Without that room there is no drawing. -/
lemma render_eq_error
    (fits : ¬ side modules.columns m q * side modules.length m q ≤ Bitmap.capacity) :
    ∃ fault, render modules (.ofNat m) (.ofNat q) = .error fault := by
  obtain ⟨n, rfl⟩ : ∃ n, m = n + 1 := ⟨m - 1, by omega⟩
  rw [render_ofNat (Modules.isEmpty_eq_false hcolumns), squares, dif_neg fun room => fits room.2]
  exact ⟨_, rfl⟩

/-- So a drawing that there is shows the modules. -/
lemma drawn_of_render {image : Bitmap}
    (hrender : render modules (.ofNat m) (.ofNat q) = .ok image) : Drawn modules m q image := by
  by_cases fits : side modules.columns m q * side modules.length m q ≤ Bitmap.capacity
  · obtain ⟨drawing, hdrawing, hdrawn⟩ := render_eq hm hcolumns fits
    obtain rfl := Except.ok.inj (hdrawing.symm.trans hrender)
    exact hdrawn
  · obtain ⟨fault, hfault⟩ := render_eq_error hm hcolumns fits
    rw [hfault] at hrender
    cases hrender

end Drawing

namespace Drawn

variable {modules : Modules} {m q : ℕ} {image : Bitmap} (h : Drawn modules m q image)
include h

/-! ### Pixels of a drawing -/

/-- The pixels of a drawing by their distance from the margin. -/
lemma isOn_offset (i j : ℕ) :
    image.isOn (q + i) (q + j)
      = (decide (i / m < modules.columns) && modules.isDark (i / m) (j / m)) := by
  rw [h.isOn_eq, Drawing.ink, decide_eq_true (Nat.le_add_right q i),
    decide_eq_true (Nat.le_add_right q j), Nat.add_sub_cancel_left, Nat.add_sub_cancel_left,
    Bool.and_true, Bool.true_and]

/-- All pixels of a module have its colour. -/
lemma isOn_module {x y i j : ℕ} (hx : x < modules.columns) (hi : q + x * m ≤ i)
    (hi' : i < q + x * m + m) (hj : q + y * m ≤ j) (hj' : j < q + y * m + m) :
    image.isOn i j = modules.isDark x y := by
  obtain ⟨i, rfl⟩ := Nat.exists_eq_add_of_le (show q ≤ i by omega)
  obtain ⟨j, rfl⟩ := Nat.exists_eq_add_of_le (show q ≤ j by omega)
  have hdivx : i / m = x := Nat.div_eq_of_lt_le (by omega) (by rw [Nat.succ_mul]; omega)
  have hdivy : j / m = y := Nat.div_eq_of_lt_le (by omega) (by rw [Nat.succ_mul]; omega)
  rw [h.isOn_offset, hdivx, hdivy, decide_eq_true hx, Bool.true_and]

/-- Dark pixels lie between the margins. -/
lemma mem_of_isOn {i j : ℕ} (hon : image.isOn i j = true) :
    (q ≤ i ∧ i < q + modules.columns * m) ∧ q ≤ j ∧ j < q + modules.length * m :=
  Drawing.mem_of_ink h.size_pos (h.isOn_eq i j ▸ hon)

/-- The first dark pixel of a drawing with a dark module in the top left corner. -/
lemma firstOn?_eq (hdark : modules.isDark 0 0 = true) (hcolumns : 0 < modules.columns) :
    image.firstOn? = some ⟨q, q⟩ := by
  have hm := h.size_pos
  refine Bitmap.firstOn?_eq_some_iff.mpr ⟨?_, ?_⟩
  · rw [h.isOn_module (x := 0) (y := 0) hcolumns, hdark] <;> dsimp only <;> omega
  · intro i j hon
    obtain ⟨⟨hi, -⟩, hj, -⟩ := h.mem_of_isOn hon
    rw [Cell.Before]
    dsimp only
    omega

/-- All pixels of the last module are dark if it is. -/
lemma isOn_corner (hdark : modules.isDark (modules.columns - 1) (modules.length - 1) = true)
    (hcolumns : 0 < modules.columns) {i j : ℕ} (hi : i < q + modules.columns * m)
    (hi' : q + modules.columns * m ≤ i + m) (hj : j < q + modules.length * m)
    (hj' : q + modules.length * m ≤ j + m) : image.isOn i j = true := by
  have hlength := Modules.lt_length_of_isDark hdark
  have hlastx : (modules.columns - 1) * m + m = modules.columns * m := by
    rw [← Nat.succ_mul, Nat.succ_eq_add_one, Nat.sub_add_cancel hcolumns]
  have hlasty : (modules.length - 1) * m + m = modules.length * m := by
    rw [← Nat.succ_mul, Nat.succ_eq_add_one, Nat.sub_add_cancel (by omega)]
  rw [h.isOn_module (x := modules.columns - 1) (y := modules.length - 1) (by omega), hdark] <;>
    omega

/-- The last dark pixel of a drawing with a dark module in the bottom right corner. -/
lemma lastOn?_eq (hdark : modules.isDark (modules.columns - 1) (modules.length - 1) = true)
    (hcolumns : 0 < modules.columns) :
    image.lastOn?
      = some ⟨q + modules.columns * m - 1, q + modules.length * m - 1⟩ := by
  have hm := h.size_pos
  have hwidth := Nat.mul_pos hcolumns hm
  have hheight := Nat.mul_pos (Nat.zero_lt_of_lt (Modules.lt_length_of_isDark hdark)) hm
  refine Bitmap.lastOn?_eq_some_iff.mpr ⟨?_, ?_⟩
  · exact h.isOn_corner hdark hcolumns (by dsimp only; omega) (by dsimp only; omega)
      (by dsimp only; omega) (by dsimp only; omega)
  · intro i j hon
    obtain ⟨⟨-, hi⟩, -, hj⟩ := h.mem_of_isOn hon
    rw [Cell.Before]
    dsimp only
    omega

end Drawn

end MatrixSymbol
