/-
Symbols that can be told from their anchors.

A symbol is recognised by the finder pattern on its diagonal, the dark module in its last corner,
and a top row and a left column that change colour too little to be measured.

* `Modules.Anchored`: the anchors, which can be decided;
* `Modules.map_range_isDark`: rows of one length are the table of their modules;
* `Specimen.anchored_grid`: specimens are anchored.
-/
import Mathlib.Data.List.GetD
import MatrixSymbol.Specimen
import MatrixSymbol.Proofs.Drawing
import MatrixSymbol.Proofs.Transitions

namespace MatrixSymbol

/-! ### Anchored symbols -/

namespace Modules

/-- The colours on the diagonal of a finder pattern, and of the separator behind it. -/
def finderDiagonal : List Bool := [true, false, true, true, true, false, true, false]

/-- The anchors of a symbol.  Its sides are at least eight modules and differ by at most a fifth of
the smaller one; the diagonal starts like that of a finder pattern; the last module is dark; and
neither the top row nor the left column, followed by the margin, changes colour five times. -/
@[mk_iff]
structure Anchored (modules : Modules) : Prop where
  rectangular : ∀ row ∈ modules, row.length = modules.columns
  columns_ge : 8 ≤ modules.columns
  rows_ge : 8 ≤ modules.length
  nearly_square : ((modules.columns : ℤ) - modules.length).natAbs
    ≤ min modules.columns modules.length / 5
  finder : modules.diagonal 8 = finderDiagonal
  corner : modules.isDark (modules.columns - 1) (modules.length - 1) = true
  top_row : Scan.changes (modules.topRow ++ [false]) < 5
  left_column : Scan.changes (modules.leftColumn ++ [false]) < 5

instance (modules : Modules) : Decidable modules.Anchored :=
  decidable_of_iff' _ modules.anchored_iff

variable {modules : Modules}

/-- The first module of an anchored symbol is dark. -/
lemma Anchored.isDark_zero (h : modules.Anchored) : modules.isDark 0 0 = true := by
  rw [← modules.getD_diagonal (n := 8) (by omega), h.finder]
  rfl

/-- Rows of one length are the table of their modules. -/
lemma map_range_isDark {modules : Modules} (h : ∀ row ∈ modules, row.length = modules.columns) :
    ((List.range modules.length).map fun y =>
      (List.range modules.columns).map fun x => modules.isDark x y) = modules := by
  refine List.ext_getElem (by simp) fun y hy hy' => ?_
  have hrow : modules[y].length = modules.columns := h _ (List.getElem_mem hy')
  rw [List.getElem_map, List.getElem_range]
  refine List.ext_getElem (by simp [hrow]) fun x hx hx' => ?_
  rw [List.getElem_map, List.getElem_range, isDark, List.getD_eq_getElem _ _ hy',
    List.getD_eq_getElem _ _ hx']

end Modules

/-! ### Specimens -/

namespace Specimen

/-- A module of a specimen. -/
lemma isDark_grid {d x y : ℕ} (hx : x < d) (hy : y < d) :
    (grid d).isDark x y = (isDark x y || (x + 1 == d && y + 1 == d)) := by
  simp [Modules.isDark, grid, List.getD_eq_getElem?_getD, hx, hy]

lemma columns_grid (d : ℕ) : (grid d).columns = d := by
  cases d with
  | zero => rfl
  | succ d => simp [Modules.columns, grid, List.range_succ_eq_map]

lemma length_grid (d : ℕ) : List.length (grid d) = d := by simp [grid]

/-- The top row of a specimen is dark. -/
lemma topRow_grid (d : ℕ) : (grid d).topRow = List.replicate d true := by
  refine List.eq_replicate_iff.mpr ⟨columns_grid d, ?_⟩
  intro c hc
  obtain ⟨k, hk, rfl⟩ := List.mem_iff_getElem.mp hc
  have hkd : k < d := columns_grid d ▸ hk
  rw [← List.getD_eq_getElem _ false hk, Modules.getD_topRow, isDark_grid hkd (by omega), isDark,
    if_pos (Or.inr rfl), Bool.true_or]

/-- So is its left column. -/
lemma leftColumn_grid (d : ℕ) : (grid d).leftColumn = List.replicate d true := by
  have hlength := (Modules.length_leftColumn (grid d)).trans (length_grid d)
  refine List.eq_replicate_iff.mpr ⟨hlength, ?_⟩
  intro c hc
  obtain ⟨k, hk, rfl⟩ := List.mem_iff_getElem.mp hc
  have hkd : k < d := hlength ▸ hk
  rw [← List.getD_eq_getElem _ false hk, Modules.getD_leftColumn, isDark_grid (by omega) hkd,
    isDark, if_pos (Or.inl rfl), Bool.true_or]

/-- Specimens of at least nine modules a side are anchored. -/
theorem anchored_grid {d : ℕ} (hd : 9 ≤ d) : (grid d).Anchored := by
  have hcolumns := columns_grid d
  have hlength := length_grid d
  constructor
  case rectangular =>
    intro row hrow
    obtain ⟨y, -, rfl⟩ := List.mem_map.mp hrow
    rw [hcolumns, List.length_map, List.length_range]
  case columns_ge => omega
  case rows_ge => omega
  case nearly_square =>
    rw [hcolumns, hlength]
    omega
  case finder =>
    have hcell : ∀ k < 8, (grid d).isDark k k = isDark k k := by
      intro k hk
      have hlast : (k + 1 == d) = false := beq_false_of_ne (by omega)
      rw [isDark_grid (by omega) (by omega), hlast, Bool.and_self, Bool.or_false]
    rw [Modules.diagonal, List.map_congr_left fun k hk => hcell k (List.mem_range.mp hk)]
    decide
  case corner =>
    have hlast : (d - 1 + 1 == d) = true := by rw [beq_iff_eq]; omega
    rw [hcolumns, hlength, isDark_grid (by omega) (by omega), hlast, Bool.and_self, Bool.or_true]
  case top_row =>
    rw [topRow_grid]
    exact (Scan.changes_replicate_append_le true false d).trans_lt (by norm_num)
  case left_column =>
    rw [leftColumn_grid]
    exact (Scan.changes_replicate_append_le true false d).trans_lt (by norm_num)

/-- A whole number of modules is the side of a specimen. -/
lemma modules_ofNat {d : ℕ} (hd : 0 < d) : modules (.ofNat d) = .ok (grid d) := by
  obtain ⟨n, rfl⟩ : ∃ n, d = n + 1 := ⟨d - 1, by omega⟩
  simp [modules, side, Except.map]

end Specimen

end MatrixSymbol
