/-
Images that show the face of a symbol.

What a measurement sees of a symbol, apart from its last dark pixel, lies on three rays from its
first one: the top row, the left column, and the diagonal as far as the separator behind the finder
pattern. An image in which these rays meet the colours of an anchored symbol gives the size of its
modules, whatever is elsewhere in it.

* `Pitch.measured?_eq_none`, `Pitch.measured?_finder`: what a ray shows along colours that change
  too little, and along a finder pattern;
* `Faced`: an image shows the face of a symbol; `Drawn.faced_of_agree`: so does an image that agrees
  with a drawing on the three rays;
* `Faced.refined_eq`, `Faced.measured`: the pitch that is measured, and the lattice if there is one
  between the first and the last dark pixel.
-/
import MatrixSymbol.Proofs.Anchors
import MatrixSymbol.Proofs.Lattice

namespace MatrixSymbol

/-! ### What the rays show -/

namespace Pitch

variable {round : ℚ → ℚ} {image : Bitmap} {x y : ℕ} {dx dy : ℤ} (hd : Ray.Forward dx dy) {m : ℕ}
  (hm : 0 < m)
include hd hm

/-- A ray that meets enlarged colours, and then a light margin, shows no pitch if the colours change
too little, wherever it leaves the image. -/
lemma measured?_eq_none {cells : List Bool}
    (hpixel : ∀ k : ℕ, Ray.inside image (x + k * dx) (y + k * dy) = true →
      Ray.pixel image x y dx dy k = cells.getD (k / m) false)
    (hdark : cells.getD 0 false = true) (hfew : Scan.changes (cells ++ [false]) < 5) :
    measured? round image x y dx dy = none := by
  obtain ⟨n, hcolours, hin, -⟩ := hd.exists_colours image x y
  have hwhole : Scan.changesAfter true (Scan.enlarge m cells ++ List.replicate n false) < 5 := by
    have hmargin := Scan.changesAfter_replicate_le (cells.getLastD true) false n
    rw [Scan.changesAfter_append, Scan.changesAfter_enlarge hm, Scan.getLastD_enlarge hm]
    cases cells with
    | nil => cases hdark
    | cons c cells =>
      obtain rfl : c = true := hdark
      rw [List.cons_append, Scan.changes, Scan.changesAfter_append] at hfew
      rw [List.getLastD_cons] at hmargin ⊢
      rw [Scan.changesAfter, if_pos rfl]
      omega
  -- the ray may leave the image early, so that it meets only the first part of these colours
  have hpart : Scan.changesAfter true (Ray.cast image x y dx dy).colours
      ≤ Scan.changesAfter true (Scan.enlarge m cells ++ List.replicate n false) := by
    rw [hcolours, List.map_congr_left fun k hk => hpixel k (hin k (List.mem_range.mp hk)),
      ← Scan.map_range_getD_div hm, Nat.add_comm, List.range_add, List.map_append,
      Scan.changesAfter_append]
    exact Nat.le_add_right _ _
  exact measured?_eq_none_of_lt (hpart.trans_lt hwhole)

/-- A ray that begins with the enlarged diagonal of a finder pattern changes colour for the fifth
time after seven modules. -/
lemma measured?_finder
    (hin : ∀ k : ℕ, k ≤ m * 7 → Ray.inside image (x + k * dx) (y + k * dy) = true)
    (hpixel : ∀ k ≤ m * 7,
      Ray.pixel image x y dx dy k = Modules.finderDiagonal.getD (k / m) false) :
    measured? round image x y dx dy = some (round m) := by
  obtain ⟨n, hcolours, -, hout⟩ := hd.exists_colours image x y
  have hn : m * 7 + 1 ≤ n := by
    by_contra hlt
    have hlast := hin (m * 7) le_rfl
    rw [hout (m * 7) (by omega)] at hlast
    cases hlast
  obtain ⟨rest, rfl⟩ := Nat.exists_eq_add_of_le hn
  have hpattern : (List.range (m * 7)).map (Ray.pixel image x y dx dy)
      = Scan.enlarge m [true, false, true, true, true, false, true] := by
    rw [Scan.enlarge_eq_map_range hm]
    refine List.map_congr_left fun k hk => ?_
    have hk' := List.mem_range.mp hk
    rw [hpixel k hk'.le, show Modules.finderDiagonal
      = [true, false, true, true, true, false, true] ++ [false] from rfl,
      List.getD_append _ _ _ _ (Nat.div_lt_of_lt_mul hk')]
  have hseparator : Ray.pixel image x y dx dy (m * 7) = false := by
    rw [hpixel _ le_rfl, Nat.mul_div_cancel_left 7 hm]
    rfl
  have hcount : seen image x y dx dy = ⟨5, m * 7, false⟩ := by
    rw [seen, hcolours, List.range_add, List.range_succ, List.map_append, List.map_append, hpattern,
      List.map_singleton, hseparator, List.append_assoc, List.singleton_append, transitions,
      Scan.count_eq_of_change, Scan.length_enlarge]
    · rfl
    · rw [Scan.changesAfter_enlarge hm]
      rfl
    · rw [Scan.getLastD_enlarge hm]
      decide
  have hseventh : (((m * 7 : ℕ) : ℚ) / (Pitch.modules : ℕ)) = m := by
    rw [Pitch.modules]
    push_cast
    exact mul_div_cancel_right₀ _ (by norm_num)
  rw [measured?, hcount, ofScan?, hseventh]
  rfl

end Pitch

/-! ### Faces -/

/-- An image shows the face of modules of `m` pixels a side, from the pixel `q` of both axes on: no
dark pixel lies above it or left of it, and the top row, the left column and the diagonal up to the
eighth module meet the colours of the modules, as far as the image goes. -/
structure Faced (modules : Modules) (m q : ℕ) (image : Bitmap) : Prop where
  size_pos : 0 < m
  right_lt : q + m * 7 < image.width
  below_lt : q + m * 7 < image.height
  mem_of_isOn : ∀ {i j}, image.isOn i j = true → q ≤ i ∧ q ≤ j
  row : ∀ k, q + k < image.width → image.isOn (q + k) q = modules.isDark (k / m) 0
  column : ∀ k, q + k < image.height → image.isOn q (q + k) = modules.isDark 0 (k / m)
  diagonal : ∀ k ≤ m * 7, image.isOn (q + k) (q + k) = modules.isDark (k / m) (k / m)

/-- An image shows the face of a drawing if it agrees with it on the three rays. -/
lemma Drawn.faced_of_agree {modules : Modules} {m q : ℕ} {drawing image : Bitmap}
    (h : Drawn modules m q drawing) (ha : modules.Anchored) (hright : q + m * 7 < image.width)
    (hbelow : q + m * 7 < image.height)
    (hmem : ∀ i j, image.isOn i j = true → q ≤ i ∧ q ≤ j)
    (hrow : ∀ i < image.width, image.isOn i q = drawing.isOn i q)
    (hcolumn : ∀ j < image.height, image.isOn q j = drawing.isOn q j)
    (hdiagonal : ∀ k ≤ m * 7, image.isOn (q + k) (q + k) = drawing.isOn (q + k) (q + k)) :
    Faced modules m q image := by
  have hcolumns := ha.columns_ge
  refine ⟨h.size_pos, hright, hbelow, fun hon => hmem _ _ hon, fun k hk => ?_, fun k hk => ?_,
    fun k hk => ?_⟩
  · have hon := h.isOn_offset k 0
    rw [Nat.add_zero, Nat.zero_div] at hon
    rw [hrow _ hk, hon]
    by_cases hpast : k / m < modules.columns
    · rw [decide_eq_true hpast, Bool.true_and]
    · -- past the last column there is no module, and the margin is light
      rw [decide_eq_false hpast, ← modules.getD_topRow, List.getD_eq_getElem?_getD,
        List.getElem?_eq_none (modules.length_topRow ▸ not_lt.mp hpast)]
      rfl
  · have hon := h.isOn_offset 0 k
    rw [Nat.add_zero, Nat.zero_div, decide_eq_true (by omega), Bool.true_and] at hon
    rw [hcolumn _ hk, hon]
  · have hinside : k / m < modules.columns :=
      (Nat.div_le_of_le_mul hk).trans_lt (by omega)
    rw [hdiagonal k hk, h.isOn_offset, decide_eq_true hinside, Bool.true_and]

namespace Faced

variable {round : ℚ → ℚ} {modules : Modules} {m q : ℕ} {image : Bitmap}
  (h : Faced modules m q image) (ha : modules.Anchored)
include h ha

/-- The first dark pixel is that of the first module. -/
lemma firstOn?_eq : image.firstOn? = some ⟨q, q⟩ := by
  refine Bitmap.firstOn?_eq_some_iff.mpr ⟨?_, fun i j hon => ?_⟩
  · have hon := h.row 0 (by have := h.right_lt; omega)
    rw [Nat.add_zero, Nat.zero_div, ha.isDark_zero] at hon
    exact hon
  · obtain ⟨hi, hj⟩ := h.mem_of_isOn hon
    rw [Cell.Before]
    dsimp only
    omega

/-- The top row shows no pitch. -/
lemma measured?_row : Pitch.measured? round image q q 1 0 = none := by
  refine Pitch.measured?_eq_none .horizontal h.size_pos (fun k hk => ?_) ?_ ha.top_row
  · rw [Ray.inside_iff] at hk
    rw [Ray.pixel, show ((q : ℤ) + k * 1).toNat = q + k by omega,
      show ((q : ℤ) + k * 0).toNat = q by omega, modules.getD_topRow]
    exact h.row k (by omega)
  · rw [modules.getD_topRow]
    exact ha.isDark_zero

/-- The left column shows no pitch. -/
lemma measured?_column : Pitch.measured? round image q q 0 1 = none := by
  refine Pitch.measured?_eq_none .vertical h.size_pos (fun k hk => ?_) ?_ ha.left_column
  · rw [Ray.inside_iff] at hk
    rw [Ray.pixel, show ((q : ℤ) + k * 1).toNat = q + k by omega,
      show ((q : ℤ) + k * 0).toNat = q by omega, modules.getD_leftColumn]
    exact h.column k (by omega)
  · rw [modules.getD_leftColumn]
    exact ha.isDark_zero

variable (hr : IsRounding round)
include hr

omit ha in
/-- A module is as wide as the numbers that rounding keeps. -/
lemma round_size : round m = m := by
  have hright := h.right_lt
  have hwidth := image.sides_le_capacity.1
  rw [Bitmap.capacity] at hwidth
  exact hr.natCast (by omega)

/-- The diagonal shows the size of the modules. -/
lemma measured?_diagonal : Pitch.measured? round image q q 1 1 = some (m : ℚ) := by
  have hright := h.right_lt
  have hbelow := h.below_lt
  rw [Pitch.measured?_finder .diagonal h.size_pos (fun k hk => ?_) fun k hk => ?_, h.round_size hr]
  · rw [Ray.inside_iff]
    omega
  · have hk' : k / m < 8 := (Nat.div_le_of_le_mul hk).trans_lt (by omega)
    rw [Ray.pixel, show ((q : ℤ) + k * 1).toNat = q + k by omega, h.diagonal k hk, ← ha.finder,
      modules.getD_diagonal hk']

/-- Since the axes show no pitch, that of the diagonal is not refined. -/
lemma refined_eq : Pitch.refined round image q q m = m := by
  have hround := h.round_size hr
  rw [Pitch.refined, h.measured?_row ha, h.measured?_column ha, Pitch.mean]
  simp [hround]

/-- **The lattice that is laid from the first module to the last dark pixel is measured.** -/
theorem measured {last : Cell} (hlast : image.lastOn? = some last) (hx : q < last.x)
    (hy : q < last.y) {l : Lattice} (hlaid : Lattice.Laid round m (.ofCells ⟨q, q⟩ last) l) :
    l.Measured round image ⟨q, q⟩ last m := by
  have hpitch := hlaid.pitch_eq
  have hencloses : (Bounds.ofCells ⟨q, q⟩ last).isEmpty = false :=
    @Lattice.isEmpty_ofCells ⟨q, q⟩ last hx hy
  have hbounds : Lattice.bounds round image m (.ofCells ⟨q, q⟩ last) = .ofCells ⟨q, q⟩ last :=
    Lattice.bounds_ofCells image m hx hy
  refine ⟨h.firstOn?_eq ha, hlast, h.measured?_diagonal ha hr, ?_, ?_, ?_⟩
  · exact hpitch.trans (h.refined_eq ha hr).symm
  · rw [hpitch, hbounds, hencloses]
  · rw [hpitch, hbounds]
    exact hlaid

end Faced

end MatrixSymbol
