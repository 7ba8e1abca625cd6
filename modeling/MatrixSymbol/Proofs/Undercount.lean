/-
Data in the top row makes measuring undercount (`measurePureGrid`, section 3.4 of the
specification).

In a real symbol the top row goes on behind the finder pattern with data, and from its corner the
colour changes for the fifth time only there.  In the specimen with a data row that is after twelve
modules instead of seven.  The mean with the diagonal, which shows the true size, is then nineteen
fourteenths of a module, so that only fourteen modules are counted for nineteen.

* `Drawn.exists_enlarged_seen`, `Drawn.measured?_of_change`, `Drawn.measured?_of_few`: what a ray
  shows in a drawing, by the modules in its way;
* `Specimen.isDark_gridWithDataRow`: the modules of the specimen; `Specimen.ray_topRow`,
  `Specimen.ray_diagonal`, `Specimen.ray_leftColumn`: those that the measurements meet;
* `Pitch.inflated`, `Pitch.refined_dataRow`: the pitch that these measurements come to;
  `Pitch.abs_inflated_sub_le`, `Pitch.inflated_of_dvd`: how rounding moves it;
* `Lattice.undercounted`, `Lattice.fitted_dataRow`: the lattice of that pitch;
* `Lattice.measure_dataRow`: it is measured in every drawing of such a specimen, and has too few
  columns and rows.
-/
import Mathlib.Algebra.Order.Floor.Semifield
import MatrixSymbol.Proofs.Anchors
import MatrixSymbol.Proofs.Checks
import MatrixSymbol.Proofs.Enlargement

namespace MatrixSymbol

/-! ### What a ray shows in a drawing -/

/-- The modules that are met first come first. -/
lemma Modules.ray_add (modules : Modules) (x y : ℕ) (dx dy : ℤ) (n e : ℕ) :
    ∃ rest, modules.ray x y dx dy (n + e) = modules.ray x y dx dy n ++ rest := by
  rw [ray, List.range_add, List.map_append]
  exact ⟨_, rfl⟩

/-- From the corner, the measurements meet the top row, the diagonal and the left column. -/
lemma Modules.ray_corner (modules : Modules) (n : ℕ) :
    modules.ray 0 0 1 0 n = ((List.range n).map fun k => modules.isDark k 0)
      ∧ modules.ray 0 0 1 1 n = modules.diagonal n
      ∧ modules.ray 0 0 0 1 n = (List.range n).map fun k => modules.isDark 0 k := by
  refine ⟨List.map_congr_left fun k _ => ?_, List.map_congr_left fun k _ => ?_,
    List.map_congr_left fun k _ => ?_⟩ <;> simp

section Ray

variable {modules : Modules} {m q : ℕ} {image : Bitmap} (h : Drawn modules m q image) {dx dy : ℤ}
  (hd : Ray.Forward dx dy) {x y n : ℕ}
  (hn : Ray.Reaches modules.columns modules.length x y dx dy n)
include h hd hn

/-- A measurement sees the modules in its way, enlarged, and then the margin if there is one. -/
lemma Drawn.exists_enlarged_seen :
    ∃ r, Scan.Enlarged m (Pitch.seen image (q + x * m) (q + y * m) dx dy)
      (Scan.count 5 (modules.ray x y dx dy n ++ List.replicate r false)) := by
  obtain ⟨r, -, hcolours⟩ := h.exists_cast_colours hd hn
  refine ⟨r, ?_⟩
  rw [Pitch.seen, hcolours]
  exact Scan.enlarged_count h.size_pos (by decide) Iff.rfl _

variable (round : ℚ → ℚ)

/-- A ray whose modules change colour for the fifth time shows a seventh of the pixels up to
there. -/
lemma Drawn.measured?_of_change {l₁ l₂ : List Bool} {c : Bool}
    (hray : modules.ray x y dx dy n = l₁ ++ c :: l₂) (hchanges : Scan.changesAfter true l₁ = 4)
    (hc : c ≠ l₁.getLastD true) :
    Pitch.measured? round image (q + x * m) (q + y * m) dx dy
      = some (round ((m * l₁.length : ℕ) / 7)) := by
  obtain ⟨r, hseen⟩ := h.exists_enlarged_seen hd hn
  rw [hray, List.append_assoc, List.cons_append,
    Scan.count_eq_of_change _ (by rw [hchanges]) hc] at hseen
  rw [Pitch.measured?, Pitch.ofScan?, hseen.transitions_eq, hseen.reachedEdge_eq,
    hseen.distance_eq rfl]
  rfl

/-- A ray whose modules change colour less than four times shows nothing, for a margin behind them
brings no more than one change. -/
lemma Drawn.measured?_of_few (hfew : Scan.changesAfter true (modules.ray x y dx dy n) < 4) :
    Pitch.measured? round image (q + x * m) (q + y * m) dx dy = none := by
  obtain ⟨r, hseen⟩ := h.exists_enlarged_seen hd hn
  refine Pitch.measured?_of_reachedEdge (hseen.reachedEdge_eq.trans ?_)
  rw [Scan.reachedEdge_count (by decide), Scan.changesAfter_append]
  have hmargin := (Scan.changesAfter_replicate_le
    ((modules.ray x y dx dy n).getLastD true) false r).trans (Scan.changesAfter_le_length _ _)
  rw [List.length_singleton] at hmargin
  omega

end Ray

/-! ### Specimens with a data row -/

namespace Specimen

variable {d : ℕ} (hd : 13 ≤ d)
include hd

/-- The rows of the specimen: the top one with data, and the others as they are. -/
lemma exists_gridWithDataRow :
    ∃ top rest, grid d = top :: rest ∧ top.length = d ∧ rest.length + 1 = d
      ∧ gridWithDataRow d = withDataRun top :: rest := by
  have hcolumns := columns_grid d
  have hlength := length_grid d
  rcases hgrid : grid d with - | ⟨top, rest⟩
  · rw [hgrid, List.length_nil] at hlength
    omega
  · rw [hgrid] at hcolumns hlength
    exact ⟨top, rest, rfl, hcolumns, hlength, by rw [gridWithDataRow, hgrid]⟩

lemma columns_gridWithDataRow : (gridWithDataRow d).columns = d := by
  obtain ⟨top, rest, -, htop, -, hrows⟩ := exists_gridWithDataRow hd
  rw [hrows, Modules.columns, List.headD_cons, withDataRun, List.length_map, List.length_range,
    htop, max_eq_left hd]

lemma length_gridWithDataRow : List.length (gridWithDataRow d) = d := by
  obtain ⟨top, rest, -, -, hrest, hrows⟩ := exists_gridWithDataRow hd
  rw [hrows, List.length_cons, hrest]

/-- The modules are those of the specimen without data, apart from six in the top row. -/
lemma isDark_gridWithDataRow {x y : ℕ} (hx : x < d) :
    (gridWithDataRow d).isDark x y
      = if y = 0 ∧ 7 ≤ x ∧ x < 13 then dataRun.getD (x - 7) false else (grid d).isDark x y := by
  obtain ⟨top, rest, hgrid, htop, -, hrows⟩ := exists_gridWithDataRow hd
  rw [hrows, hgrid, Modules.isDark, Modules.isDark]
  cases y with
  | zero =>
    have hlt : x < max top.length 13 := by omega
    rw [List.getD_cons_zero, List.getD_cons_zero, withDataRun, List.getD_eq_getElem?_getD,
      List.getElem?_map, List.getElem?_range hlt, Option.map_some, Option.getD_some]
    exact if_congr (by simp) rfl rfl
  | succ y => rw [if_neg (by omega), List.getD_cons_succ, List.getD_cons_succ]

/-- The top row up to the fifth change of colour. -/
def dataRowHead : List Bool :=
  [true, true, true, true, true, true, true, false, true, false, true, true]

/-- In the top row the colour changes for the fifth time after twelve modules. -/
lemma ray_topRow : ∃ rest, (gridWithDataRow d).ray 0 0 1 0 d = dataRowHead ++ false :: rest := by
  have hhead : (gridWithDataRow d).ray 0 0 1 0 13 = dataRowHead ++ [false] := by
    have hcell : ∀ k < 13, (gridWithDataRow d).isDark k 0
        = if 7 ≤ k then dataRun.getD (k - 7) false else true := by
      intro k hk
      rw [isDark_gridWithDataRow hd (by omega), isDark_grid (by omega) (by omega), isDark,
        if_pos (Or.inr rfl), Bool.true_or]
      exact if_congr (by omega) rfl rfl
    rw [(Modules.ray_corner _ 13).1,
      List.map_congr_left fun k hk => hcell k (List.mem_range.mp hk)]
    rfl
  obtain ⟨e, rfl⟩ := Nat.exists_eq_add_of_le hd
  obtain ⟨rest, hrest⟩ := (gridWithDataRow (13 + e)).ray_add 0 0 1 0 13 e
  exact ⟨rest, by rw [hrest, hhead, List.append_assoc, List.singleton_append]⟩

/-- On the diagonal it does after seven modules, as at every finder pattern. -/
lemma ray_diagonal : ∃ rest, (gridWithDataRow d).ray 0 0 1 1 d
    = [true, false, true, true, true, false, true] ++ false :: rest := by
  have hhead : (gridWithDataRow d).ray 0 0 1 1 8 = Modules.finderDiagonal := by
    rw [(Modules.ray_corner _ 8).2.1, ← (anchored_grid (show 9 ≤ d by omega)).finder]
    refine List.map_congr_left fun k hk => ?_
    have hk' := List.mem_range.mp hk
    rw [isDark_gridWithDataRow hd (by omega), if_neg (by omega)]
  obtain ⟨e, rfl⟩ := Nat.exists_eq_add_of_le (show 8 ≤ d by omega)
  obtain ⟨rest, hrest⟩ := (gridWithDataRow (8 + e)).ray_add 0 0 1 1 8 e
  exact ⟨rest, by rw [hrest, hhead]; rfl⟩

/-- The left column is dark. -/
lemma ray_leftColumn : (gridWithDataRow d).ray 0 0 0 1 d = List.replicate d true := by
  rw [(Modules.ray_corner _ d).2.2]
  refine List.eq_replicate_iff.mpr ⟨by rw [List.length_map, List.length_range], fun c hc => ?_⟩
  obtain ⟨k, hk, rfl⟩ := List.mem_map.mp hc
  have hk' := List.mem_range.mp hk
  rw [isDark_gridWithDataRow hd (by omega), if_neg (by omega), isDark_grid (by omega) hk', isDark,
    if_pos (Or.inl rfl), Bool.true_or]

/-- The last module is dark. -/
lemma isDark_last : (gridWithDataRow d).isDark (d - 1) (d - 1) = true := by
  have hlast : (d - 1 + 1 == d) = true := by rw [beq_iff_eq]; omega
  rw [isDark_gridWithDataRow hd (by omega), if_neg (by omega),
    isDark_grid (by omega) (by omega), hlast, Bool.and_self, Bool.or_true]

/-- A whole number of modules is the side of a specimen with a data row. -/
lemma modulesWithDataRow_ofNat : modulesWithDataRow (.ofNat d) = .ok (gridWithDataRow d) := by
  obtain ⟨n, rfl⟩ : ∃ n, d = n + 1 := ⟨d - 1, by omega⟩
  simp [modulesWithDataRow, side, Except.map]

end Specimen

/-! ### The inflated pitch -/

namespace Pitch

/-- The mean of `m` pixels a module, which the diagonal shows, and of the twelve sevenths of them
that the top row shows. -/
def inflated (round : ℚ → ℚ) (m : ℕ) : ℚ := round (round (m + round ((m * 12 : ℕ) / 7)) / 2)

variable {round : ℚ → ℚ}

section Drawn

variable {d m q : ℕ} (hd : 13 ≤ d) {image : Bitmap}
  (h : Drawn (Specimen.gridWithDataRow d) m q image)
include hd h

variable (round) in
/-- What the three rays show from the corner of the specimen. -/
lemma measured?_dataRow :
    measured? round image q q 1 1 = some (round ((m * 7 : ℕ) / 7))
      ∧ measured? round image q q 1 0 = some (round ((m * 12 : ℕ) / 7))
      ∧ measured? round image q q 0 1 = none := by
  have hcolumns := Specimen.columns_gridWithDataRow hd
  have hlength := Specimen.length_gridWithDataRow hd
  obtain ⟨rest, hdiagonal⟩ := Specimen.ray_diagonal hd
  obtain ⟨rest', hrow⟩ := Specimen.ray_topRow hd
  have hcolumn : Scan.changesAfter true ((Specimen.gridWithDataRow d).ray 0 0 0 1 d) < 4 := by
    rw [Specimen.ray_leftColumn hd, Scan.changesAfter_replicate_self]
    norm_num
  have hshown := h.measured?_of_change .diagonal
    ⟨by omega, by omega, by omega, by omega, by omega⟩ round hdiagonal rfl (by decide)
  have hshown' := h.measured?_of_change .horizontal
    ⟨by omega, by omega, by omega, by omega, by omega⟩ round hrow rfl (by decide)
  have hshown'' := h.measured?_of_few .vertical
    ⟨by omega, by omega, by omega, by omega, by omega⟩ round hcolumn
  rw [Nat.zero_mul, Nat.add_zero] at hshown hshown' hshown''
  exact ⟨hshown, hshown', hshown''⟩

/-- **The pitch of the specimen is inflated**: its top row counts as much as its diagonal. -/
theorem refined_dataRow (hr : IsRounding round) :
    measured? round image q q 1 1 = some (m : ℚ)
      ∧ refined round image q q m = inflated round m := by
  have hround : round m = m := by
    have hwidth := h.width_eq
    have hside := Nat.le_mul_of_pos_left m (show 0 < d by omega)
    have hle := image.sides_le_capacity.1
    rw [Drawing.side, Specimen.columns_gridWithDataRow hd] at hwidth
    rw [Bitmap.capacity] at hle
    exact hr.natCast (by omega)
  have hseventh : (((m * 7 : ℕ) : ℚ) / 7) = m := by
    push_cast
    exact mul_div_cancel_right₀ _ (by norm_num)
  obtain ⟨hdiagonal, hrow, hcolumn⟩ := measured?_dataRow round hd h
  rw [hseventh, hround] at hdiagonal
  refine ⟨hdiagonal, ?_⟩
  rw [refined, hrow, hcolumn, mean, inflated]
  simp [hround]

end Drawn

variable (hr : IsCloseRounding round) {m : ℕ}
include hr

/-- **It exceeds a module by five fourteenths**, but for what rounding does to it. -/
theorem abs_inflated_sub_le (hm : m ≤ 2 ^ 16) :
    |inflated round m - 19 * m / 14| ≤ 1 / 2 ^ 29 := by
  have hm' : (m : ℚ) ≤ 2 ^ 16 := by exact_mod_cast hm
  have hm0 : (0 : ℚ) ≤ m := Nat.cast_nonneg m
  have hrow := hr.close (q := (m * 12 : ℕ) / 7) (by positivity) (by push_cast; linarith)
  have hrow0 : 0 ≤ round ((m * 12 : ℕ) / 7) := hr.nonneg (by positivity)
  rw [abs_sub_le_iff] at hrow
  push_cast at hrow hrow0
  have hsum := hr.close (q := m + round ((m * 12 : ℕ) / 7)) (by push_cast; linarith)
    (by push_cast; linarith)
  have hsum0 : 0 ≤ round (m + round ((m * 12 : ℕ) / 7)) := hr.nonneg (by push_cast; linarith)
  rw [abs_sub_le_iff] at hsum
  push_cast at hsum hsum0
  have hhalf := hr.close (q := round (m + round ((m * 12 : ℕ) / 7)) / 2) (by push_cast; linarith)
    (by push_cast; linarith)
  rw [abs_sub_le_iff] at hhalf
  push_cast at hhalf
  rw [inflated, abs_sub_le_iff]
  push_cast
  constructor <;> linarith

/-- Rounding does nothing to it if a module has a multiple of seven pixels. -/
lemma inflated_of_dvd (hm : m ≤ 2 ^ 16) (hseven : 7 ∣ m) : inflated round m = 19 * m / 14 := by
  obtain ⟨k, rfl⟩ := hseven
  have hrow : (((7 * k * 12 : ℕ) : ℚ) / 7) = (12 * k : ℕ) := by push_cast; ring
  have hsum : (((7 * k : ℕ) : ℚ) + (12 * k : ℕ)) = (19 * k : ℕ) := by push_cast; ring
  rw [inflated, hrow, hr.natCast (by omega), hsum, hr.natCast (by omega), hr.half (by omega)]
  push_cast
  ring

/-- It is no less than a module. -/
lemma le_inflated (hm0 : 0 < m) (hm : m ≤ 2 ^ 16) : (m : ℚ) ≤ inflated round m := by
  have hclose := (abs_sub_le_iff.mp (abs_inflated_sub_le hr hm)).2
  have hm1 : (1 : ℚ) ≤ m := by exact_mod_cast hm0
  linarith

end Pitch

/-! ### The lattice of the inflated pitch -/

/-- The number of modules that are counted on a side of `d` of them: fourteen for every nineteen, to
the nearest whole number. -/
def Specimen.undercount (d : ℕ) : ℕ := ⌊(14 * d / 19 + 1 / 2 : ℚ)⌋₊

lemma Specimen.undercount_eq (d : ℕ) : undercount d = (28 * d + 19) / 38 := by
  have hquot : (14 * d / 19 + 1 / 2 : ℚ) = ((28 * d + 19 : ℕ) : ℚ) / (38 : ℕ) := by
    push_cast
    ring
  rw [undercount, hquot]
  exact Nat.floor_div_eq_div _ _

namespace Lattice

variable {round : ℚ → ℚ}

/-- The lattice of the inflated pitch in a drawing of the specimen of side `d`, with `m` pixels a
module and `q` pixels of margin. -/
def undercounted (d m q : ℕ) (pitch : ℚ) : Lattice where
  pitch := pitch
  left := q + ⌊(19 * m / 28 : ℚ)⌋
  top := q + ⌊(19 * m / 28 : ℚ)⌋
  width := Specimen.undercount d
  height := Specimen.undercount d

/-- What is close to a fraction that is no whole number lies between the same whole numbers. -/
lemma floor_eq_of_close {n k : ℕ} (hk : 0 < k) {x : ℚ} (h : |x - n / k| < 1 / k) (hn : ¬ k ∣ n) :
    ⌊x⌋ = (n / k : ℕ) := by
  have hk0 : (0 : ℚ) < k := by exact_mod_cast hk
  have hrest : 0 < n % k := Nat.pos_of_ne_zero fun h0 => hn (Nat.dvd_of_mod_eq_zero h0)
  have hlt := Nat.mod_lt n hk
  have hsplit := Nat.div_add_mod n k
  generalize n / k = z at *
  obtain ⟨hhigh, hlow⟩ := abs_sub_lt_iff.mp h
  have hbelow : (z : ℚ) ≤ (n - 1 : ℚ) / k := by
    rw [le_div_iff₀ hk0, le_sub_iff_add_le]
    exact_mod_cast (by rw [Nat.mul_comm]; omega : z * k + 1 ≤ n)
  have habove : (n + 1 : ℚ) / k ≤ z + 1 := by
    rw [div_le_iff₀ hk0, add_one_mul]
    exact_mod_cast (by rw [Nat.mul_comm]; omega : n + 1 ≤ z * k + k)
  rw [sub_div] at hbelow
  rw [add_div] at habove
  rw [Int.floor_eq_iff]
  constructor <;> push_cast <;> linarith

section Sizes

variable (hr : IsCloseRounding round) {d m : ℕ} (hd : 0 < d) (hm : 0 < m) (hsize : d * m ≤ 2 ^ 16)
include hr hd hm hsize

/-- Half of the inflated pitch, in whole pixels. -/
lemma nudge_inflated : nudge round (Pitch.inflated round m) = ⌊(19 * m / 28 : ℚ)⌋ := by
  have hm' : m ≤ 2 ^ 16 := (Nat.le_mul_of_pos_left m hd).trans hsize
  rw [nudge]
  by_cases hseven : 7 ∣ m
  · -- a quarter of a whole number, which every fine rounding keeps
    rw [Pitch.inflated_of_dvd hr hm' hseven]
    obtain ⟨k, rfl⟩ := hseven
    have hquarter : (19 * (7 * k : ℕ) / 14 / 2 : ℚ) = (38 * k : ℕ) / 8 := by push_cast; ring
    have hsame : (19 * (7 * k : ℕ) / 28 : ℚ) = (38 * k : ℕ) / 8 := by push_cast; ring
    rw [hquarter, hsame, hr.eighth (by omega)]
    rfl
  · have hclose := abs_sub_le_iff.mp (Pitch.abs_inflated_sub_le hr hm')
    have hle := Pitch.le_inflated hr hm hm'
    have hm1 : (1 : ℚ) ≤ m := by exact_mod_cast hm
    have hm2 : (m : ℚ) ≤ 2 ^ 16 := by exact_mod_cast hm'
    have hround := abs_sub_le_iff.mp
      (hr.close (q := Pitch.inflated round m / 2) (by linarith) (by linarith))
    have hnear : |round (Pitch.inflated round m / 2) - (19 * m : ℕ) / (28 : ℕ)|
        < 1 / (28 : ℕ) := by
      rw [abs_sub_lt_iff]
      push_cast
      constructor <;> linarith
    have hwhole : ¬ 28 ∣ 19 * m := by omega
    have hfloor := floor_eq_of_close (by norm_num) hnear hwhole
    have hexact := Rat.floor_natCast_div_natCast (19 * m) 28
    push_cast at hfloor hexact
    rw [hexact]
    exact hfloor

/-- The quotient that is rounded misses fourteen nineteenths of the modules by the error of the
pitch, once for every module. -/
lemma abs_quotient_sub_le :
    |(d * m : ℕ) / Pitch.inflated round m - 14 * d / 19| ≤ 1 / 2 ^ 13 := by
  have hm' : m ≤ 2 ^ 16 := (Nat.le_mul_of_pos_left m hd).trans hsize
  have hclose := abs_sub_le_iff.mp (Pitch.abs_inflated_sub_le hr hm')
  have hle := Pitch.le_inflated hr hm hm'
  have hm1 : (1 : ℚ) ≤ m := by exact_mod_cast hm
  have hd1 : (1 : ℚ) ≤ d := by exact_mod_cast hd
  have hd2 : (d : ℚ) ≤ 2 ^ 16 := by exact_mod_cast (Nat.le_mul_of_pos_right d hm).trans hsize
  have hp : 0 < Pitch.inflated round m := by linarith
  have hlow : (14 * d / 19 - 1 / 2 ^ 13) * Pitch.inflated round m ≤ d * m := by nlinarith
  have hhigh : (d * m : ℚ) ≤ (14 * d / 19 + 1 / 2 ^ 13) * Pitch.inflated round m := by nlinarith
  rw [abs_sub_le_iff, sub_le_iff_le_add, sub_le_comm, div_le_iff₀ hp, le_div_iff₀ hp]
  push_cast
  constructor <;> linarith

/-- The modules that are counted at the inflated pitch. -/
lemma modulesIn_inflated :
    modulesIn round (d * m : ℕ) (Pitch.inflated round m) = Specimen.undercount d := by
  have hquot := abs_sub_le_iff.mp (abs_quotient_sub_le hr hd hm hsize)
  have hd1 : (1 : ℚ) ≤ d := by exact_mod_cast hd
  have hd2 : (d : ℚ) ≤ 2 ^ 16 := by exact_mod_cast (Nat.le_mul_of_pos_right d hm).trans hsize
  have hround := abs_sub_le_iff.mp
    (hr.close (q := (d * m : ℕ) / Pitch.inflated round m) (by linarith) (by linarith))
  have hnear : |round ((d * m : ℕ) / Pitch.inflated round m) + 1 / 2
      - (28 * d + 19 : ℕ) / (38 : ℕ)| < 1 / (38 : ℕ) := by
    rw [abs_sub_lt_iff]
    push_cast at hround hquot ⊢
    constructor <;> linarith
  -- fourteen nineteenths and a half are no whole number, since their numerator is odd
  have hodd : ¬ 38 ∣ 28 * d + 19 := by omega
  rw [Specimen.undercount_eq]
  exact floor_eq_of_close (by norm_num) hnear hodd

/-- The last of them starts inside the symbol: its place is at least ten fourteenths of a module
before the end, and half of the inflated pitch is less than that. -/
lemma last_inflated_lt {n : ℕ} (hn : Specimen.undercount d = n + 1) :
    ⌊(19 * m / 28 : ℚ)⌋ + ⌊round (n * Pitch.inflated round m)⌋ < (d * m : ℕ) := by
  have hm' : m ≤ 2 ^ 16 := (Nat.le_mul_of_pos_left m hd).trans hsize
  have hcount := Specimen.undercount_eq d
  have hlast : ((38 * n + 20) * m : ℚ) ≤ 28 * d * m := by
    exact_mod_cast Nat.mul_le_mul_right m (show 38 * n + 20 ≤ 28 * d by omega)
  have hclose := abs_sub_le_iff.mp (Pitch.abs_inflated_sub_le hr hm')
  have hm1 : (1 : ℚ) ≤ m := by exact_mod_cast hm
  have hn0 : (0 : ℚ) ≤ n := Nat.cast_nonneg n
  have hnd : (n : ℚ) ≤ 2 ^ 16 := by
    have hdm := Nat.le_mul_of_pos_right d hm
    exact_mod_cast (by omega : n ≤ 2 ^ 16)
  have hsize' : (d * m : ℚ) ≤ 2 ^ 16 := by exact_mod_cast hsize
  have hplace : n * Pitch.inflated round m ≤ d * m - 20 * m / 28 + 1 / 2 ^ 13 := by
    calc n * Pitch.inflated round m ≤ n * (19 * m / 14 + 1 / 2 ^ 29) :=
          mul_le_mul_of_nonneg_left (by linarith) hn0
      _ ≤ d * m - 20 * m / 28 + 1 / 2 ^ 13 := by
          rw [mul_add]
          linarith
  have hplace0 : 0 ≤ n * Pitch.inflated round m :=
    mul_nonneg hn0 (by linarith [Pitch.le_inflated hr hm hm'])
  have hround := abs_sub_le_iff.mp (hr.close hplace0 (by linarith))
  have hoffset := Int.floor_le (round (n * Pitch.inflated round m))
  have hnudge := Int.floor_le (19 * m / 28 : ℚ)
  have hlt : ((⌊(19 * m / 28 : ℚ)⌋ + ⌊round (n * Pitch.inflated round m)⌋ : ℤ) : ℚ)
      < ((d * m : ℕ) : ℤ) := by
    push_cast
    linarith
  exact_mod_cast hlt

/-- So it does not land past the symbol. -/
lemma excess_inflated (low : ℤ) :
    (fit round (Pitch.inflated round m) (nudge round (Pitch.inflated round m)) low
      (low + (d * m : ℕ) - 1) (Specimen.undercount d)).excess ≤ 0 := by
  have hcount := Specimen.undercount_eq d
  obtain ⟨n, hn⟩ := Nat.exists_eq_succ_of_ne_zero (show Specimen.undercount d ≠ 0 by omega)
  have hlt := last_inflated_lt hr hd hm hsize hn
  have hexcess : (fit round (Pitch.inflated round m) (nudge round (Pitch.inflated round m)) low
      (low + (d * m : ℕ) - 1) (Specimen.undercount d)).excess
        = low + ⌊(19 * m / 28 : ℚ)⌋ + ⌊round (n * Pitch.inflated round m)⌋
          - (low + (d * m : ℕ) - 1) := by
    rw [fit, nudge_inflated hr hd hm hsize, hn, offset, Nat.cast_succ, add_sub_cancel_right,
      Int.cast_natCast]
    rfl
  rw [hexcess]
  omega

/-- **The lattice of the inflated pitch** between the first and the last dark pixel. -/
theorem fitted_dataRow (q : ℕ) :
    fitted round (Pitch.inflated round m) ⟨q, q, q + (d * m : ℕ) - 1, q + (d * m : ℕ) - 1⟩
      = undercounted d m q (Pitch.inflated round m) := by
  have hcount := modulesIn_inflated hr hd hm hsize
  have hsides : sides round (Pitch.inflated round m)
      ⟨q, q, q + (d * m : ℕ) - 1, q + (d * m : ℕ) - 1⟩
        = ((Specimen.undercount d : ℤ), (Specimen.undercount d : ℤ)) := by
    rw [sides, Bounds.columns, Bounds.rows,
      show (q + (d * m : ℕ) - 1 - q + 1 : ℤ) = (d * m : ℕ) by omega, hcount]
    exact squareUp_eq (by omega)
  have hstart : (fit round (Pitch.inflated round m) (nudge round (Pitch.inflated round m)) q
      (q + (d * m : ℕ) - 1) (Specimen.undercount d)).start = q + ⌊(19 * m / 28 : ℚ)⌋ := by
    rw [start_fit, max_eq_left (excess_inflated hr hd hm hsize q), nudge_inflated hr hd hm hsize,
      sub_zero]
  rw [fitted, hsides, across, down, undercounted, Int.toNat_natCast, hstart]

end Sizes

/-! ### Drawings with a data row -/

section Drawn

variable (hr : IsCloseRounding round) {d m q : ℕ} (hd : 13 ≤ d) {image : Bitmap}
  (h : Drawn (Specimen.gridWithDataRow d) m q image)
include hd h

/-- A drawing of the specimen that can be stored is at most as long as the square root of the
capacity. -/
lemma dataRow_side_le : d * m ≤ 2 ^ 16 := by
  have hsize := image.size_le
  rw [h.width_eq, h.height_eq, Specimen.columns_gridWithDataRow hd,
    Specimen.length_gridWithDataRow hd, Drawing.side, Bitmap.capacity] at hsize
  by_contra hlt
  have hsquare := Nat.mul_le_mul (show 2 ^ 16 + 1 ≤ d * m + 2 * q by omega)
    (show 2 ^ 16 + 1 ≤ d * m + 2 * q by omega)
  omega

/-- Its first dark pixel is that of its first module. -/
lemma firstOn?_dataRow : image.firstOn? = some ⟨q, q⟩ := by
  have hside := Nat.mul_le_mul_left d h.size_pos
  refine h.firstOn?_eq ?_ (by rw [Specimen.columns_gridWithDataRow hd]; omega)
  rw [Specimen.isDark_gridWithDataRow hd (by omega), if_neg (by omega),
    Specimen.isDark_grid (by omega) (by omega)]
  rfl

/-- Its last dark pixel is that of its last module. -/
lemma lastOn?_dataRow : image.lastOn? = some ⟨q + d * m - 1, q + d * m - 1⟩ := by
  have hcolumns := Specimen.columns_gridWithDataRow hd
  have hlength := Specimen.length_gridWithDataRow hd
  have hon := h.lastOn?_eq (by rw [hcolumns, hlength]; exact Specimen.isDark_last hd) (by omega)
  rwa [hcolumns, hlength] at hon

include hr

/-- The inflated pitch lays its lattice between them. -/
lemma laid_dataRow :
    Laid round (Pitch.inflated round m) ⟨q, q, q + (d * m : ℕ) - 1, q + (d * m : ℕ) - 1⟩
      (undercounted d m q (Pitch.inflated round m)) := by
  have hm := h.size_pos
  have hpos : 0 < d := by omega
  have hside := Nat.mul_le_mul_left d hm
  have hsize := dataRow_side_le hd h
  have hp : 1 / 2 ≤ Pitch.inflated round m := by
    have hle := Pitch.le_inflated hr hm ((Nat.le_mul_of_pos_left m hpos).trans hsize)
    have hm1 : (1 : ℚ) ≤ m := by exact_mod_cast hm
    linarith
  have hspan : (q + (d * m : ℕ) - 1 - q + 1 : ℤ) = (d * m : ℕ) := by omega
  have hcounted : 0 < modulesIn round (d * m : ℕ) (Pitch.inflated round m) := by
    have hcount := Specimen.undercount_eq d
    rw [modulesIn_inflated hr hpos hm hsize]
    omega
  rw [← fitted_dataRow hr hpos hm hsize q]
  refine laid_fitted hr.toIsFineRounding hp ?_ ?_ ?_
  · constructor <;> simp only [Bounds.columns, Bounds.rows, Bitmap.capacity] <;> omega
  · rwa [Bounds.columns, hspan]
  · rwa [Bounds.rows, hspan]

/-- **The lattice of the inflated pitch is measured** in every drawing of the specimen. -/
theorem measured_dataRow :
    (undercounted d m q (Pitch.inflated round m)).Measured round image ⟨q, q⟩
      ⟨q + d * m - 1, q + d * m - 1⟩ m := by
  have hside := Nat.mul_le_mul_left d h.size_pos
  have hbeyond : q < q + d * m - 1 := by omega
  have hbounds : bounds round image (Pitch.inflated round m)
      (.ofCells ⟨q, q⟩ ⟨q + d * m - 1, q + d * m - 1⟩)
        = ⟨q, q, q + (d * m : ℕ) - 1, q + (d * m : ℕ) - 1⟩ := by
    rw [bounds_ofCells image _ hbeyond hbeyond, Bounds.ofCells, Bounds.mk.injEq]
    dsimp only
    omega
  obtain ⟨hdiagonal, hpitch⟩ := Pitch.refined_dataRow hd h hr.toIsRounding
  refine ⟨firstOn?_dataRow hd h, lastOn?_dataRow hd h, hdiagonal, hpitch.symm, ?_, ?_⟩
  · rw [undercounted, bounds_ofCells image _ hbeyond hbeyond, isEmpty_ofCells hbeyond hbeyond]
  · rw [undercounted, hbounds]
    exact laid_dataRow hr hd h

/-- **What is extracted has too few columns and rows.** -/
theorem run_extract_dataRow (wanted : Bool) :
    ∃ grid, ((Extraction.extract round image).run wanted).1 = .ok (.ok grid)
      ∧ grid.width = Specimen.undercount d ∧ grid.height = Specimen.undercount d := by
  have hmeasure : ((measure round image).run wanted).1
      = .ok (.ok (undercounted d m q (Pitch.inflated round m))) :=
    run_measure_eq_ok_iff.mpr ⟨_, _, _, measured_dataRow hr hd h⟩
  obtain ⟨hw, hh, hextract⟩ := Extraction.run_extract_eq hr.toIsRounding hmeasure
  have hcount : Specimen.undercount d ≤ 2 ^ 16 := by
    have hsize := dataRow_side_le hd h
    have hside := Nat.le_mul_of_pos_right d h.size_pos
    have heq := Specimen.undercount_eq d
    omega
  have hfits : (undercounted d m q (Pitch.inflated round m)).width
      * (undercounted d m q (Pitch.inflated round m)).height ≤ Bitmap.capacity :=
    (Nat.mul_le_mul hcount hcount).trans (by decide)
  rw [dif_pos hfits] at hextract
  exact ⟨_, hextract, rfl, rfl⟩

end Drawn

/-- **Data in the top row makes measuring undercount.**  Every drawing of the specimen with a data
row, of at least thirteen modules a side, is measured as a lattice with fourteen columns and rows
for every nineteen modules, to the nearest whole number, which are always too few; and that is what
is extracted.  Without rounding the pitch is nineteen fourteenths of a module; rounding to binary64
moves it by very little, and does not change anything else. -/
theorem measure_dataRow (d size margin : ℕ) (hd : 13 ≤ d) (hsize : 1 ≤ size) (wanted : Bool) :
    ∃ modules, Specimen.modulesWithDataRow (.ofNat d) = .ok modules
      ∧ if Drawing.side d size margin * Drawing.side d size margin ≤ Bitmap.capacity then
          ∃ image, Drawing.render modules (.ofNat size) (.ofNat margin) = .ok image
            ∧ ((measure id image).run wanted).1
              = .ok (.ok (undercounted d size margin (19 * size / 14)))
            ∧ (∃ pitch : ℚ, |pitch - 19 * size / 14| ≤ 1 / 2 ^ 29
              ∧ ((measure Binary64.nearest image).run wanted).1
                = .ok (.ok (undercounted d size margin pitch)))
            ∧ Specimen.undercount d < d
            ∧ ∀ round, round = id ∨ round = Binary64.nearest →
              ∃ grid, ((Extraction.extract round image).run wanted).1 = .ok (.ok grid)
                ∧ grid.width = Specimen.undercount d ∧ grid.height = Specimen.undercount d
        else ∃ fault, Drawing.render modules (.ofNat size) (.ofNat margin) = .error fault := by
  have hcolumns := Specimen.columns_gridWithDataRow hd
  have hlength := Specimen.length_gridWithDataRow hd
  have hpos : 0 < (Specimen.gridWithDataRow d).columns := by omega
  refine ⟨_, Specimen.modulesWithDataRow_ofNat hd, ?_⟩
  split
  · next fits =>
    obtain ⟨image, hrender, h⟩ := Drawing.render_eq hsize hpos (by rwa [hcolumns, hlength])
    have hm : size ≤ 2 ^ 16 :=
      (Nat.le_mul_of_pos_left size (by omega)).trans (dataRow_side_le hd h)
    have hexact := measured_dataRow isCloseRounding_id hd h
    have hrounded := measured_dataRow isCloseRounding_nearest hd h
    have hpitch : Pitch.inflated id size = 19 * size / 14 := by
      rw [Pitch.inflated, id, id, id]
      push_cast
      ring
    rw [hpitch] at hexact
    refine ⟨image, hrender, run_measure_eq_ok_iff.mpr ⟨_, _, _, hexact⟩,
      ⟨_, Pitch.abs_inflated_sub_le isCloseRounding_nearest hm,
        run_measure_eq_ok_iff.mpr ⟨_, _, _, hrounded⟩⟩, ?_, ?_⟩
    · rw [Specimen.undercount_eq]
      omega
    · rintro round (rfl | rfl)
      · exact run_extract_dataRow isCloseRounding_id hd h wanted
      · exact run_extract_dataRow isCloseRounding_nearest hd h wanted
  · next fits => exact Drawing.render_eq_error hsize hpos (by rwa [hcolumns, hlength])

/-- The specimen of twenty-one modules a side, with four pixels for each of them, is measured as one
of fifteen. -/
theorem measure_dataRow_smallest :
    13 ≤ 21 ∧ 1 ≤ 4
    ∧ ∃ modules, Specimen.modulesWithDataRow (.ofNat 21) = .ok modules
      ∧ ∃ image, Drawing.render modules (.ofNat 4) (.ofNat 0) = .ok image
        ∧ ((measure id image).run true).1 = .ok (.ok ⟨38 / 7, 2, 2, 15, 15⟩)
        ∧ ∃ grid, ((Extraction.extract Binary64.nearest image).run true).1 = .ok (.ok grid)
          ∧ grid.width = 15 ∧ grid.height = 15 := by
  obtain ⟨modules, hmodules, h⟩ := measure_dataRow 21 4 0 (by decide) (by decide) true
  rw [if_pos (by decide)] at h
  obtain ⟨image, hrender, hexact, -, -, hextract⟩ := h
  have hcount : Specimen.undercount 21 = 15 := by rw [Specimen.undercount_eq]
  have hlattice : undercounted 21 4 0 (19 * (4 : ℕ) / 14) = ⟨38 / 7, 2, 2, 15, 15⟩ := by
    rw [undercounted, hcount]
    norm_num
  obtain ⟨grid, hgrid, hwidth, hheight⟩ := hextract _ (Or.inr rfl)
  exact ⟨by decide, by decide, modules, hmodules, image, hrender, hlattice ▸ hexact, grid, hgrid,
    hwidth.trans hcount, hheight.trans hcount⟩

end Lattice

end MatrixSymbol
