/-
How large and how small an estimate of the pitch can be (`estimateModuleSize`, section 3.2 of the
specification).

An estimate is the mean of what the diagonal shows and of what the axes show as well.  Each of them
shows a seventh of the steps to its fifth change of colour.  There are at least four steps, for no
two changes come at the same pixel, and fewer than the longer side has pixels.  If nothing is
rounded, bounds of all measurements are bounds of their mean.

* `Pitch.le_mean_id`, `Pitch.mean_id_le`, `Pitch.exists_extremes_mean_id`: where the mean lies;
* `Pitch.shown_mem`: how large and how small the pitch that a ray shows can be;
* `Pitch.mean_usable_mem`: how large and how small the mean of the usable measurements can be;
* `Pitch.estimate_within`: when estimating succeeds, and where the estimate then lies.
-/
import MatrixSymbol.Proofs.Pitch
import MatrixSymbol.Proofs.Store
import MatrixSymbol.Proofs.Walks

namespace MatrixSymbol

/-- A dark pixel that is read starts the rays from its numbers. -/
lemma Ray.head?_cast_colours_of_get {image : Bitmap} {x y : Number} {i j : ℤ}
    (hx : x.toInt? = some i) (hy : y.toInt? = some j) (hon : image.get x y = .ok true)
    (dx dy : ℤ) : (Ray.cast image i j dx dy).colours.head? = some true := by
  rw [Number.toInt?_eq_some_iff] at hx hy
  rw [Bitmap.get] at hon
  cases hlocate : image.locate x y with
  | error fault => rw [hlocate] at hon; cases hon
  | ok c =>
    rw [hlocate] at hon
    obtain ⟨-, -, hcx, hcy⟩ := Bitmap.locate_eq_ok_iff.mp hlocate
    obtain rfl : i = c.x := by exact_mod_cast Option.some.inj (hx.symm.trans hcx)
    obtain rfl : j = c.y := by exact_mod_cast Option.some.inj (hy.symm.trans hcy)
    exact Pitch.head?_cast_colours (Except.ok.inj hon) dx dy

namespace Pitch

/-! ### Means -/

section Mean

variable {l : List ℚ} (hne : l ≠ []) {c : ℚ}
include hne

/-- A lower bound of all measurements is one of their mean. -/
lemma le_mean_id (h : ∀ m ∈ l, c ≤ m) : c ≤ mean id l := by
  have hpos : (0 : ℚ) < l.length := by exact_mod_cast List.length_pos_iff.mpr hne
  rw [mean_id, le_div_iff₀ hpos]
  calc c * l.length = l.length • c := by rw [nsmul_eq_mul, mul_comm]
    _ ≤ l.sum := l.card_nsmul_le_sum c h

/-- So is an upper one. -/
lemma mean_id_le (h : ∀ m ∈ l, m ≤ c) : mean id l ≤ c := by
  have hpos : (0 : ℚ) < l.length := by exact_mod_cast List.length_pos_iff.mpr hne
  rw [mean_id, div_le_iff₀ hpos]
  calc l.sum ≤ l.length • c := l.sum_le_card_nsmul c h
    _ = c * l.length := by rw [nsmul_eq_mul, mul_comm]

/-- **The mean lies between the smallest and the largest measurement.** -/
lemma exists_extremes_mean_id :
    ∃ low high, l.min? = some low ∧ l.max? = some high ∧ low ≤ mean id l ∧ mean id l ≤ high := by
  obtain ⟨low, hlow⟩ := Option.ne_none_iff_exists'.mp (mt List.min?_eq_none_iff.mp hne)
  obtain ⟨high, hhigh⟩ := Option.ne_none_iff_exists'.mp (mt List.max?_eq_none_iff.mp hne)
  exact ⟨low, high, hlow, hhigh, le_mean_id hne (List.min?_eq_some_iff.mp hlow).2,
    mean_id_le hne (List.max?_eq_some_iff.mp hhigh).2⟩

end Mean

/-! ### Measurements -/

section Rays

variable {image : Bitmap} {i j : ℤ}

/-- **What a ray shows** is at least four sevenths of a pixel, or five if it starts dark, and at
most a seventh of the steps across the longer side. -/
lemma shown_mem {dx dy : ℤ} (hd : Ray.Forward dx dy) {pitch : ℚ}
    (h : ofScan? id (Scan.count transitions (Ray.cast image i j dx dy).colours) = some pitch) :
    4 / 7 ≤ pitch ∧ pitch ≤ ((max image.width image.height : ℕ) - 1) / 7
      ∧ ((Ray.cast image i j dx dy).colours.head? = some true → 5 / 7 ≤ pitch) := by
  obtain ⟨n, hfour, hfive, hlength, rfl⟩ := exists_steps_of_count h
  obtain ⟨side, hside, -, hcolours⟩ := Ray.exists_stays_iff image i j hd.moves
  rw [hcolours, List.length_map, List.length_range] at hlength
  refine ⟨?_, ?_, fun hhead => ?_⟩ <;> refine div_le_div_of_nonneg_right ?_ (by norm_num)
  · exact_mod_cast hfour
  · rw [le_sub_iff_add_le]
    exact_mod_cast hlength.trans_le hside
  · exact_mod_cast hfive hhead

variable {diagonal : ℚ} (hdiagonal :
  ofScan? id (Scan.count transitions (Ray.cast image i j 1 1).colours) = some diagonal)
include hdiagonal

/-- A usable measurement is what one of the three rays shows. -/
lemma exists_ray_of_mem_usable {m : ℚ}
    (h : m ∈ usable diagonal
      (ofScan? id (Scan.count transitions (Ray.cast image i j 1 0).colours))
      (ofScan? id (Scan.count transitions (Ray.cast image i j 0 1).colours))) :
    ∃ dx dy, Ray.Forward dx dy
      ∧ ofScan? id (Scan.count transitions (Ray.cast image i j dx dy).colours) = some m := by
  rw [usable, List.cons_append, List.mem_cons, List.mem_append, Option.mem_toList,
    Option.mem_toList] at h
  obtain rfl | h | h := h
  · exact ⟨1, 1, .diagonal, hdiagonal⟩
  · exact ⟨1, 0, .horizontal, h⟩
  · exact ⟨0, 1, .vertical, h⟩

/-- The mean of the usable measurements lies where each of them does. -/
lemma mean_usable_mem {l : List ℚ}
    (hl : l = usable diagonal
      (ofScan? id (Scan.count transitions (Ray.cast image i j 1 0).colours))
      (ofScan? id (Scan.count transitions (Ray.cast image i j 0 1).colours))) :
    4 / 7 ≤ mean id l ∧ mean id l ≤ ((max image.width image.height : ℕ) - 1) / 7
      ∧ ((∀ dx dy, (Ray.cast image i j dx dy).colours.head? = some true) → 5 / 7 ≤ mean id l) := by
  have hne : l ≠ [] := hl ▸ List.cons_ne_nil _ _
  have hmem : ∀ m ∈ l, 4 / 7 ≤ m ∧ m ≤ ((max image.width image.height : ℕ) - 1) / 7
      ∧ ((∀ dx dy, (Ray.cast image i j dx dy).colours.head? = some true) → 5 / 7 ≤ m) := by
    intro m hm
    obtain ⟨dx, dy, hd, hshown⟩ := exists_ray_of_mem_usable hdiagonal (hl ▸ hm)
    obtain ⟨hfour, hside, hfive⟩ := shown_mem hd hshown
    exact ⟨hfour, hside, fun hhead => hfive (hhead dx dy)⟩
  exact ⟨le_mean_id hne fun m hm => (hmem m hm).1, mean_id_le hne fun m hm => (hmem m hm).2.1,
    fun hhead => le_mean_id hne fun m hm => (hmem m hm).2.2 hhead⟩

end Rays

/-! ### Estimates -/

/-- **An estimate is well defined and bounded.**  From numbers that stand for integers, inside the
image or not, estimating is never a fault, and it succeeds exactly if the colour changes at five of
the positions on the diagonal that lie before the edge, whatever the axes show.  Both hold with any
rounding.  Without rounding, the estimate then lies between the smallest and the largest of the
measurements of which it is the mean.  It is at most a seventh of the steps across the longer side;
and it is positive, for it is at least four sevenths of a pixel, and five sevenths from a dark one.
-/
theorem estimate_within (image : Bitmap) {x y : Number} {i j : ℤ} (hx : x.toInt? = some i)
    (hy : y.toInt? = some j) (wanted : Bool) :
    ∃ steps, (∀ k, Ray.Stays image i j 1 1 k ↔ k < steps)
      ∧ (∀ round, ∃ answer, ((estimate round image x y).run wanted).1 = .ok answer
        ∧ ((∃ pitch, answer = .ok pitch)
          ↔ 5 ≤ Nat.count (Scan.Change (Ray.pixel image i j 1 1)) steps))
      ∧ ∀ pitch, ((estimate id image x y).run wanted).1 = .ok (.ok pitch) →
        ∃ diagonal horizontal vertical, alongDiagonal id image x y = .ok (.ok diagonal)
          ∧ alongAxis? id image x y .horizontal = .ok horizontal
          ∧ alongAxis? id image x y .vertical = .ok vertical
          ∧ (∃ low high, (usable diagonal horizontal vertical).min? = some low
            ∧ (usable diagonal horizontal vertical).max? = some high
            ∧ low ≤ pitch ∧ pitch ≤ high)
          ∧ pitch ≤ ((max image.width image.height : ℕ) - 1) / 7
          ∧ 0 < pitch ∧ 4 / 7 ≤ pitch ∧ (image.get x y = .ok true → 5 / 7 ≤ pitch) := by
  have hdiagonal := scan_of_toInt? image hx hy 1 1
  have hhorizontal := scan_of_toInt? image hx hy 1 0
  have hvertical := scan_of_toInt? image hx hy 0 1
  have hrun := fun round => run_estimate_of_scan round hdiagonal hhorizontal hvertical wanted
  obtain ⟨steps, -, hstays, hcolours⟩ :=
    Ray.exists_stays_iff image i j Ray.Forward.diagonal.moves
  refine ⟨steps, hstays, fun round => ⟨_, hrun round, ?_⟩, fun pitch h => ?_⟩
  · rw [← Scan.changesAfter_map_range, ← hcolours, ← @ofScan?_count_isSome_iff round]
    cases ofScan? round (Scan.count transitions (Ray.cast image i j 1 1).colours) with
    | none => simp
    | some diagonal => simp
  · rw [hrun id] at h
    split at h
    · next diagonal hshown =>
      obtain rfl := Except.ok.inj (Except.ok.inj h)
      obtain ⟨hfour, hside, hfive⟩ := mean_usable_mem hshown rfl
      refine ⟨diagonal, _, _, by rw [alongDiagonal_of_scan id hdiagonal, hshown],
        alongAxis?_of_scan id hhorizontal, alongAxis?_of_scan id hvertical,
        exists_extremes_mean_id (List.cons_ne_nil _ _), hside, by linarith, hfour, fun hon => ?_⟩
      exact hfive (Ray.head?_cast_colours_of_get hx hy hon)
    · cases Except.ok.inj h

/-- Dots on the diagonal, two pixels apart, and stripes along the top row that are wider. -/
def lopsided : Bitmap :=
  Bitmap.ofFn 9 8 (by decide) (by decide) (by decide) fun x y =>
    (x == y && x % 2 == 0) || (y == 0 && [0, 1, 3, 5, 6, 7].contains x)

/-- From its dark corner, which may be given by a negative zero, the diagonal shows as little as it
can, the top row as much as it can, and the left column nothing. -/
theorem estimate_within_lopsided :
    Number.negZero.toInt? = some 0 ∧ (Number.ofNat 0).toInt? = some 0
    ∧ ((estimate id lopsided .negZero (.ofNat 0)).run true).1 = .ok (.ok (13 / 14))
    ∧ lopsided.get .negZero (.ofNat 0) = .ok true
    ∧ (∀ k, Ray.Stays lopsided 0 0 1 1 k ↔ k < 8)
    ∧ 5 ≤ Nat.count (Scan.Change (Ray.pixel lopsided 0 0 1 1)) 8
    ∧ alongDiagonal id lopsided .negZero (.ofNat 0) = .ok (.ok (5 / 7))
    ∧ alongAxis? id lopsided .negZero (.ofNat 0) .horizontal = .ok (some (8 / 7))
    ∧ alongAxis? id lopsided .negZero (.ofNat 0) .vertical = .ok none
    ∧ (∃ low high, (usable (5 / 7) (some (8 / 7)) none).min? = some low
      ∧ (usable (5 / 7) (some (8 / 7)) none).max? = some high ∧ low ≤ 13 / 14 ∧ 13 / 14 ≤ high)
    ∧ (13 / 14 : ℚ) ≤ ((max 9 8 : ℕ) - 1) / 7 ∧ (5 / 7 : ℚ) ≤ 13 / 14 := by
  have hestimate : ((estimate id lopsided .negZero (.ofNat 0)).run true).1
      = .ok (.ok (13 / 14)) := by decide +kernel
  have hon : lopsided.get .negZero (.ofNat 0) = .ok true := by decide +kernel
  have hdiagonal : alongDiagonal id lopsided .negZero (.ofNat 0) = .ok (.ok (5 / 7)) := by
    decide +kernel
  have hhorizontal : alongAxis? id lopsided .negZero (.ofNat 0) .horizontal
      = .ok (some (8 / 7)) := by decide +kernel
  have hvertical : alongAxis? id lopsided .negZero (.ofNat 0) .vertical = .ok none := by
    decide +kernel
  obtain ⟨steps, hstays, hsucceeds, hbounds⟩ :=
    @estimate_within lopsided .negZero (.ofNat 0) 0 0 (by decide) (by decide) true
  have hin : Ray.Stays lopsided 0 0 1 1 7 := by unfold Ray.Stays; decide +kernel
  have hout : ¬ Ray.Stays lopsided 0 0 1 1 8 := by unfold Ray.Stays; decide +kernel
  rw [hstays] at hin hout
  obtain rfl : steps = 8 := by omega
  obtain ⟨answer, hanswer, hmany⟩ := hsucceeds id
  obtain rfl := Except.ok.inj (hanswer.symm.trans hestimate)
  obtain ⟨d, h, v, hd, hh, hv, hmean, hside, -, -, hfive⟩ := hbounds _ hestimate
  obtain rfl := Except.ok.inj (Except.ok.inj (hd.symm.trans hdiagonal))
  obtain rfl := Except.ok.inj (hh.symm.trans hhorizontal)
  obtain rfl := Except.ok.inj (hv.symm.trans hvertical)
  exact ⟨by decide, by decide, hestimate, hon, hstays, hmany.mp ⟨_, rfl⟩, hdiagonal, hhorizontal,
    hvertical, hmean, hside, hfive hon⟩

end Pitch

end MatrixSymbol
