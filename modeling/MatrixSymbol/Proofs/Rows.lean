/-
Bitmaps from rows (`fromRows`, section 2 of the specification).

* `Bitmap.draw_eq`: drawing with positive whole sides needs nothing but the storage;
* `Bitmap.ofRows_eq`: rows of one length make the bitmap that shows them;
* `Bitmap.ofRows_spec`: what a bitmap made from rows shows; `Bitmap.exists_ofRows_iff`: which rows
  make one; `Bitmap.name_of_ofRows`: the faults of the others;
* `Bitmap.toRows_ofFn`: the rows of a drawn bitmap; `Bitmap.ofRows_toRows`: the rows of a bitmap
  make that bitmap.
-/
import Mathlib.Data.List.GetD
import Mathlib.Tactic
import MatrixSymbol.Bitmap.Picture

namespace MatrixSymbol

namespace Bitmap

/-- Drawing with positive whole sides needs nothing but the storage. -/
lemma draw_eq {width height : Number} {w h : ℕ} (hwidth : width.toNat? = some w)
    (hheight : height.toNat? = some h) (hw : 0 < w) (hh : 0 < h) (on : ℕ → ℕ → Bool) :
    draw width height on
      = if fits : w * h ≤ capacity then .ok (ofFn w h hw hh fits on) else .error .storage := by
  rw [draw, hwidth, hheight]
  exact dif_pos ⟨hw, hh⟩

lemma draw_ofNat {w h : ℕ} (hw : 0 < w) (hh : 0 < h) (on : ℕ → ℕ → Bool) :
    draw (.ofNat w) (.ofNat h) on
      = if fits : w * h ≤ capacity then .ok (ofFn w h hw hh fits on) else .error .storage :=
  draw_eq (Number.toNat?_ofNat w) (Number.toNat?_ofNat h) hw hh on

/-- Rows of one length have no ragged one among them. -/
lemma firstRagged?_eq_none {w : ℕ} {rows : List (List Bool)}
    (h : ∀ row ∈ rows, row.length = w) (y : ℕ) : firstRagged? w y rows = none := by
  induction rows generalizing y with
  | nil => rfl
  | cons row rows ih =>
    rw [firstRagged?, if_pos (h row List.mem_cons_self)]
    exact ih (fun r hr => h r (List.mem_cons_of_mem row hr)) (y + 1)

/-- In rows of one length, laid end to end, a cell stands at its place in row order. -/
lemma getD_flatten {w : ℕ} {rows : List (List Bool)} (h : ∀ row ∈ rows, row.length = w) {x : ℕ}
    (hx : x < w) (y : ℕ) :
    rows.flatten.getD (y * w + x) false = (rows.getD y []).getD x false := by
  induction rows generalizing y with
  | nil => simp
  | cons row rows ih =>
    have hrow : row.length = w := h row List.mem_cons_self
    have hrest := ih fun r hr => h r (List.mem_cons_of_mem row hr)
    rw [List.flatten_cons]
    cases y with
    | zero =>
      rw [Nat.zero_mul, Nat.zero_add, List.getD_append _ _ _ _ (by omega), List.getD_cons_zero]
    | succ y =>
      rw [Nat.succ_mul, List.getD_append_right _ _ _ _ (by omega), List.getD_cons_succ, ← hrest y]
      congr 1
      omega

/-- **Rows of one length make the bitmap that shows them**, if there is room to store it. -/
theorem ofRows_eq {w : ℕ} {rows : List (List Bool)} (hw : 0 < w) (hh : 0 < rows.length)
    (h : ∀ row ∈ rows, row.length = w) :
    ofRows rows
      = if fits : w * rows.length ≤ capacity then
          .ok (ofFn w rows.length hw hh fits fun x y => (rows.getD y []).getD x false)
        else .error .storage := by
  have hhead : (rows.headD []).length = w := by
    cases rows with
    | nil => cases hh
    | cons row rows => exact h row List.mem_cons_self
  have hblank := draw_ofNat hw hh fun _ _ => false
  rw [← blank] at hblank
  by_cases fits : w * rows.length ≤ capacity
  · rw [dif_pos fits] at hblank ⊢
    rw [ofRows, hhead, hblank, firstRagged?_eq_none h]
    refine congrArg Except.ok (ext_isOn rfl rfl fun x y hx hy => ?_)
    have hxw : x < w := hx
    simp only [isOn_ofFn]
    rw [← getD_flatten h hxw, Array.getD_eq_getD_getElem?, List.getElem?_toArray,
      ← List.getD_eq_getElem?_getD]
    rfl
  · rw [dif_neg fits] at hblank ⊢
    rw [ofRows, hhead, hblank]
    rfl

/-- The rows of a drawn bitmap. -/
lemma toRows_ofFn {w h : ℕ} (hw : 0 < w) (hh : 0 < h) (fits : w * h ≤ capacity)
    (on : ℕ → ℕ → Bool) :
    (ofFn w h hw hh fits on).toRows
      = (List.range h).map fun y => (List.range w).map fun x => on x y := by
  refine List.map_congr_left fun y hy => List.map_congr_left fun x hx => ?_
  have hxw : x < w := List.mem_range.mp hx
  have hyh : y < h := List.mem_range.mp hy
  rw [isOn_ofFn, decide_eq_true hxw, decide_eq_true hyh, Bool.true_and, Bool.true_and]

/-! ### Rows of a bitmap -/

section Bitmap

variable (b : Bitmap)

lemma length_toRows : b.toRows.length = b.height := by
  rw [toRows, List.length_map, List.length_range]

lemma length_of_mem_toRows : ∀ row ∈ b.toRows, row.length = b.width := by
  intro row hrow
  obtain ⟨y, -, rfl⟩ := List.mem_map.mp hrow
  rw [List.length_map, List.length_range]

lemma getElem?_toRows {y : ℕ} (hy : y < b.height) :
    b.toRows[y]? = some ((List.range b.width).map fun x => b.isOn x y) := by
  rw [toRows, List.getElem?_map, List.getElem?_range hy]
  rfl

/-- The rows show the view, and nothing outside the bitmap. -/
lemma getD_toRows (x y : ℕ) : (b.toRows.getD y []).getD x false = b.isOn x y := by
  rw [List.getD_eq_getElem?_getD, List.getD_eq_getElem?_getD]
  by_cases hy : y < b.height
  · rw [b.getElem?_toRows hy, Option.getD_some, List.getElem?_map]
    by_cases hx : x < b.width
    · rw [List.getElem?_range hx]
      rfl
    · rw [List.getElem?_eq_none (by rw [List.length_range]; omega), isOn, decide_eq_false hx]
      rfl
  · rw [List.getElem?_eq_none (l := b.toRows) (by rw [length_toRows]; omega), isOn,
      decide_eq_false hy, Bool.and_false, Bool.false_and]
    rfl

/-- **The rows of a bitmap make that bitmap.** -/
theorem ofRows_toRows : ofRows b.toRows = .ok b := by
  have hlength := b.length_toRows
  have fits : b.width * b.toRows.length ≤ capacity := hlength ▸ b.size_le
  rw [ofRows_eq b.width_pos (hlength ▸ b.height_pos) b.length_of_mem_toRows, dif_pos fits]
  refine congrArg Except.ok (ext_isOn rfl hlength fun x y hx hy => ?_)
  have hxw : x < b.width := hx
  have hyh : y < b.toRows.length := hy
  rw [isOn_ofFn, decide_eq_true hxw, decide_eq_true hyh, b.getD_toRows]
  rfl

end Bitmap

/-! ### Faults -/

/-- A bitmap is not drawn for want of sides or of storage. -/
lemma name_of_draw {width height : Number} {on : ℕ → ℕ → Bool} {fault : Fault}
    (h : draw width height on = .error fault) : fault.name = "RangeError" := by
  rw [draw] at h
  split at h
  · split_ifs at h <;> obtain rfl := Except.error.inj h <;> rfl
  · obtain rfl := Except.error.inj h
    rfl

/-- A blank bitmap has cells. -/
lemma pos_of_blank {w h : ℕ} {b : Bitmap} (hblank : blank (.ofNat w) (.ofNat h) = .ok b) :
    0 < w ∧ 0 < h := by
  by_contra hpos
  rw [blank, draw, Number.toNat?_ofNat, Number.toNat?_ofNat] at hblank
  cases (dif_neg hpos).symm.trans hblank

lemma name_of_firstRagged? {w y : ℕ} {rows : List (List Bool)} {fault : Fault}
    (h : firstRagged? w y rows = some fault) : fault.name = "RangeError" := by
  induction rows generalizing y with
  | nil => cases h
  | cons row rows ih =>
    rw [firstRagged?] at h
    split_ifs at h
    · exact ih h
    · obtain rfl := Option.some.inj h
      rfl

/-- If no row is ragged all have the same length. -/
lemma length_of_firstRagged? {w y : ℕ} {rows : List (List Bool)}
    (h : firstRagged? w y rows = none) : ∀ row ∈ rows, row.length = w := by
  induction rows generalizing y with
  | nil => exact fun row hrow => absurd hrow List.not_mem_nil
  | cons row rows ih =>
    rw [firstRagged?] at h
    split_ifs at h with hrow
    exact List.forall_mem_cons.mpr ⟨hrow, ih h⟩

/-- **Rows that make no bitmap are a range fault.** -/
theorem name_of_ofRows {rows : List (List Bool)} {fault : Fault} (h : ofRows rows = .error fault) :
    fault.name = "RangeError" := by
  rw [ofRows] at h
  cases hblank : blank (.ofNat (rows.headD []).length) (.ofNat rows.length) with
  | error fault' =>
    rw [hblank] at h
    obtain rfl : fault' = fault := Except.error.inj h
    exact name_of_draw hblank
  | ok b =>
    rw [hblank] at h
    cases hragged : firstRagged? (rows.headD []).length 0 rows with
    | none =>
      simp only [bind, Except.bind, hragged] at h
      cases h
    | some fault' =>
      simp only [bind, Except.bind, hragged] at h
      obtain rfl : fault' = fault := Except.error.inj h
      exact name_of_firstRagged? hragged

/-- **What a bitmap made from rows shows.** -/
theorem ofRows_spec {rows : List (List Bool)} {b : Bitmap} (h : ofRows rows = .ok b) :
    b.height = rows.length ∧ (∀ row ∈ rows, row.length = b.width)
      ∧ ∀ x < b.width, ∀ y < b.height, b.isOn x y = (rows.getD y []).getD x false := by
  have hdefined := h
  rw [ofRows] at h
  cases hblank : blank (.ofNat (rows.headD []).length) (.ofNat rows.length) with
  | error fault =>
    rw [hblank] at h
    cases h
  | ok blanked =>
    rw [hblank] at h
    cases hragged : firstRagged? (rows.headD []).length 0 rows with
    | some fault =>
      simp only [bind, Except.bind, hragged] at h
      cases h
    | none =>
      obtain ⟨hw, hh⟩ := pos_of_blank hblank
      have hrows := length_of_firstRagged? hragged
      rw [ofRows_eq hw hh hrows] at hdefined
      split_ifs at hdefined with fits
      obtain rfl := Except.ok.inj hdefined
      refine ⟨rfl, hrows, fun x hx y hy => ?_⟩
      have hxw : x < (rows.headD []).length := hx
      have hyh : y < rows.length := hy
      rw [isOn_ofFn, decide_eq_true hxw, decide_eq_true hyh]
      rfl

lemma length_flatten {w : ℕ} {rows : List (List Bool)} (h : ∀ row ∈ rows, row.length = w) :
    rows.flatten.length = w * rows.length := by
  induction rows with
  | nil => rfl
  | cons row rows ih =>
    obtain ⟨hrow, hrows⟩ := List.forall_mem_cons.mp h
    rw [List.flatten_cons, List.length_append, ih hrows, hrow, List.length_cons, Nat.mul_succ,
      Nat.add_comm]

/-- **Rows make a bitmap** if there are some, none of them empty and all of the same length, and
there is room for their cells. -/
theorem exists_ofRows_iff {rows : List (List Bool)} (hne : ∀ row ∈ rows, row ≠ []) :
    (∃ b, ofRows rows = .ok b)
      ↔ rows ≠ [] ∧ (∀ row ∈ rows, ∀ row' ∈ rows, row.length = row'.length)
        ∧ rows.flatten.length ≤ capacity := by
  constructor
  · rintro ⟨b, h⟩
    obtain ⟨hheight, hrows, -⟩ := ofRows_spec h
    refine ⟨fun hnil => ?_, fun row hrow row' hrow' => ?_, ?_⟩
    · rw [hnil] at hheight
      exact b.height_pos.ne' hheight
    · rw [hrows row hrow, hrows row' hrow']
    · rw [length_flatten hrows, ← hheight]
      exact b.size_le
  · rintro ⟨hnil, hsame, fits⟩
    obtain ⟨row, rest, rfl⟩ := List.exists_cons_of_ne_nil hnil
    have hrows : ∀ row' ∈ row :: rest, row'.length = row.length := fun row' hrow' =>
      hsame row' hrow' row List.mem_cons_self
    have hwidth : 0 < row.length := List.length_pos_iff.mpr (hne row List.mem_cons_self)
    rw [length_flatten hrows] at fits
    rw [ofRows_eq hwidth (List.length_pos_iff.mpr hnil) hrows, dif_pos fits]
    exact ⟨_, rfl⟩

end Bitmap

end MatrixSymbol
