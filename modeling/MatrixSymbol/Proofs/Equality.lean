/-
Bitmaps, their rows, and when two of them are equal (`fromRows` and `equals`, section 2 of the
specification).

Equality compares the stored cells.  A place in storage means another cell in a bitmap of another
width, so that this tells apart what shows differently only together with the sides; then it is the
same as showing the same cells, and as having the same rows.

* `Bitmap.equals_iff_eq`, `Bitmap.eq_iff_get`, `Bitmap.toRows_inj`: equality by storage, by reading
  every cell, and by rows;
* `Bitmap.ofRows_eq_ok_iff`: rows make a bitmap exactly if they are its rows;
* `Bitmap.Rectangular`: the rows that make a bitmap, if there is room for it;
* `Bitmap.rows_determine`: bitmaps and rectangular rows determine each other, other rows are a range
  fault, and equal bitmaps are those that show the same.
-/
import MatrixSymbol.Proofs.Store

namespace MatrixSymbol

namespace Bitmap

variable {a b : Bitmap} {rows : List (List Bool)}

/-! ### Equality -/

/-- Bitmaps that compare equal are equal. -/
lemma equals_iff_eq : a.equals b = true ↔ a = b := by
  constructor
  · intro h
    obtain ⟨aw, ah, ac, _, _, _, _⟩ := a
    obtain ⟨bw, bh, bc, _, _, _, _⟩ := b
    simp only [equals, Bool.and_eq_true, beq_iff_eq] at h
    obtain ⟨⟨rfl, rfl⟩, rfl⟩ := h
    rfl
  · rintro rfl
    simp only [equals, beq_self_eq_true, Bool.and_self]

/-- Bitmaps are equal if reading any cell gives the same in both. -/
lemma eq_iff_get :
    a = b ↔ a.width = b.width ∧ a.height = b.height
      ∧ ∀ x < a.width, ∀ y < a.height,
        a.get (.ofNat x) (.ofNat y) = b.get (.ofNat x) (.ofNat y) := by
  constructor
  · rintro rfl
    exact ⟨rfl, rfl, fun _ _ _ _ => rfl⟩
  · rintro ⟨hwidth, hheight, hget⟩
    refine ext_isOn hwidth hheight fun x y hx hy => ?_
    have hcell := hget x hx y hy
    rw [get_ofNat a hx hy, get_ofNat b (hwidth ▸ hx) (hheight ▸ hy)] at hcell
    exact Except.ok.inj hcell

/-- Bitmaps are equal if they have the same rows. -/
lemma toRows_inj : a.toRows = b.toRows ↔ a = b := by
  refine ⟨fun h => ?_, fun h => h ▸ rfl⟩
  have hrows := a.ofRows_toRows
  rw [h, b.ofRows_toRows] at hrows
  exact (Except.ok.inj hrows).symm

/-! ### Rows -/

/-- **Rows make a bitmap exactly if they are its rows.** -/
theorem ofRows_eq_ok_iff : ofRows rows = .ok b ↔ b.toRows = rows := by
  refine ⟨fun h => ?_, fun h => h ▸ b.ofRows_toRows⟩
  obtain ⟨hheight, hlength, hcells⟩ := ofRows_spec h
  refine List.ext_getElem (b.length_toRows.trans hheight) fun y hy hy' => ?_
  have hrow := hlength _ (List.getElem_mem hy')
  refine List.ext_getElem ((b.length_of_mem_toRows _ (List.getElem_mem hy)).trans hrow.symm)
    fun x hx hx' => ?_
  have hcell := hcells x (hrow ▸ hx') y (hheight ▸ hy')
  rw [← b.getD_toRows, List.getD_eq_getElem _ _ hy, List.getD_eq_getElem _ _ hy',
    List.getD_eq_getElem _ _ hx, List.getD_eq_getElem _ _ hx'] at hcell
  exact hcell

/-- Rows of a rectangle: there are some, none is empty, and all have the same length. -/
structure Rectangular (rows : List (List Bool)) : Prop where
  ne_nil : rows ≠ []
  row_ne_nil : ∀ row ∈ rows, row ≠ []
  length_eq : ∀ row ∈ rows, ∀ row' ∈ rows, row.length = row'.length

/-- The rows of a bitmap are those of a rectangle. -/
lemma rectangular_toRows (b : Bitmap) : Rectangular b.toRows where
  ne_nil h := b.height_pos.ne' (b.length_toRows ▸ List.length_eq_zero_iff.mpr h)
  row_ne_nil row hrow h :=
    b.width_pos.ne' (b.length_of_mem_toRows row hrow ▸ List.length_eq_zero_iff.mpr h)
  length_eq row hrow row' hrow' := by
    rw [b.length_of_mem_toRows row hrow, b.length_of_mem_toRows row' hrow']

/-- Rows make a bitmap exactly if they are those of a rectangle for which there is room. -/
lemma exists_ofRows_iff_rectangular :
    (∃ b, ofRows rows = .ok b) ↔ Rectangular rows ∧ rows.flatten.length ≤ capacity := by
  constructor
  · rintro ⟨b, h⟩
    have hrectangular := ofRows_eq_ok_iff.mp h ▸ b.rectangular_toRows
    exact ⟨hrectangular, ((exists_ofRows_iff hrectangular.row_ne_nil).mp ⟨b, h⟩).2.2⟩
  · rintro ⟨h, fits⟩
    exact (exists_ofRows_iff h.row_ne_nil).mpr ⟨h.ne_nil, h.length_eq, fits⟩

/-- **Bitmaps and rows determine each other.**  The rows of a bitmap make a bitmap that is equal to
it.  Rows make a bitmap, of which they are the rows, if they are those of a rectangle for which
there is room, and are a range fault otherwise.  Two bitmaps are equal exactly if they have the same
sides and every cell reads the same, and exactly if they have the same rows; and after any calls
that set their cells, exactly if they have the same sides and hold the same in every cell, which is
the value it was last set to. -/
theorem rows_determine :
    (∀ b : Bitmap, ∃ b', ofRows b.toRows = .ok b' ∧ b'.equals b = true)
    ∧ (∀ rows : List (List Bool),
      ((∃ b, ofRows rows = .ok b ∧ b.toRows = rows)
        ↔ Rectangular rows ∧ rows.flatten.length ≤ capacity)
      ∧ ((∃ fault, ofRows rows = .error fault ∧ fault.name = "RangeError")
        ↔ ¬ (Rectangular rows ∧ rows.flatten.length ≤ capacity)))
    ∧ ∀ a b : Bitmap,
      (a.equals b = true
        ↔ a.width = b.width ∧ a.height = b.height
          ∧ ∀ x < a.width, ∀ y < a.height,
            a.get (.ofNat x) (.ofNat y) = b.get (.ofNat x) (.ofNat y))
      ∧ (a.equals b = true ↔ a.toRows = b.toRows)
      ∧ ∀ calls calls' : List Setting,
        (a.run calls).equals (b.run calls') = true
          ↔ a.width = b.width ∧ a.height = b.height
            ∧ ∀ x < a.width, ∀ y < a.height,
              (Setting.last? calls x y).getD (a.isOn x y)
                = (Setting.last? calls' x y).getD (b.isOn x y) := by
  refine ⟨fun b => ⟨b, b.ofRows_toRows, equals_iff_eq.mpr rfl⟩, fun rows => ⟨?_, ?_⟩,
    fun a b => ⟨?_, ?_, fun calls calls' => ?_⟩⟩
  · rw [← exists_ofRows_iff_rectangular]
    exact exists_congr fun b => and_iff_left_of_imp ofRows_eq_ok_iff.mp
  · rw [← exists_ofRows_iff_rectangular]
    cases hrows : ofRows rows with
    | ok b => simp
    | error fault => simpa using name_of_ofRows hrows
  · rw [equals_iff_eq, eq_iff_get]
  · rw [equals_iff_eq, toRows_inj]
  · obtain ⟨hwidth, hheight⟩ := sides_run a calls
    obtain ⟨hwidth', hheight'⟩ := sides_run b calls'
    rw [equals_iff_eq, eq_iff_get, hwidth, hheight, hwidth', hheight']
    refine and_congr_right fun hw => and_congr_right fun hh => ?_
    refine forall₂_congr fun x hx => forall₂_congr fun y hy => ?_
    rw [get_ofNat _ (hwidth ▸ hx) (hheight ▸ hy),
      get_ofNat _ (hwidth' ▸ hw ▸ hx) (hheight' ▸ hh ▸ hy), Except.ok.injEq,
      isOn_run calls hx hy, isOn_run calls' (hw ▸ hx) (hh ▸ hy)]

end Bitmap

end MatrixSymbol
