/-
Modules drawn larger are measured larger (`estimateModuleSize`, section 3.2 of the specification).

A scan that starts at the first pixel of a drawn module meets the modules in its way one after the
other, as many pixels of each as a module is wide, and then the margin if there is one.  So it makes
the same changes of colour in drawings of every size, at distances in proportion to the size.

* `Scan.Enlarged`: a scan sees the same changes as another one, farther on; `Scan.enlarged_count`:
  so does the scan of enlarged colours;
* `Ray.Reaches`, `Modules.ray`: how far it is to the edge, and the modules that lie in the way;
* `Drawn.exists_cast_colours`: what a walk through a drawing meets; `Drawn.enlarged_count`: two
  drawings of the same modules are scanned alike;
* `Pitch.ofScan?_of_enlarged`, `Pitch.mean_id_map`: what the scans say of the pitch is in
  proportion;
* `Pitch.estimate_render`: measurements of a drawing are those of the drawing with modules of one
  pixel, times the size of the modules;
* `Pitch.estimate_render_rounded`: their rounded values need not be.
-/
import MatrixSymbol.Proofs.Drawing
import MatrixSymbol.Proofs.Pitch

namespace MatrixSymbol

/-! ### Scans of enlarged colours -/

namespace Scan

/-- A scan sees the same changes as another one, at `m` times the distance. -/
structure Enlarged (m : ℕ) (s s' : Scan) : Prop where
  transitions_eq : s.transitions = s'.transitions
  reachedEdge_eq : s.reachedEdge = s'.reachedEdge
  distance_eq : s'.reachedEdge = false → s.distance = m * s'.distance

/-- A scan has reached its limit exactly if it has not run off. -/
lemma transitions_count_eq_iff {limit : ℕ} {l : List Bool} (hpos : 0 < limit) :
    (count limit l).transitions = limit ↔ (count limit l).reachedEdge = false := by
  by_cases hfew : changesAfter true l < limit
  · rw [count_eq_of_lt hfew]
    exact ⟨fun h => absurd h hfew.ne, fun h => by cases h⟩
  · have hstop := (reachedEdge_count_eq_false hpos).mpr (not_lt.mp hfew)
    obtain ⟨l₁, -, -, -, -, -, hcount⟩ := split_of_not_reachedEdge hpos hstop
    rw [hcount]
    exact iff_of_true rfl rfl

/-- A margin changes colour once, at its first pixel, if what lies before it is dark. -/
lemma changesAfter_margin (colour : Bool) (n : ℕ) :
    changesAfter colour (List.replicate (n + 1) false) = if false = colour then 0 else 1 := by
  rw [List.replicate_succ, changesAfter, changesAfter_replicate_self, Nat.add_zero]

/-- The changes do not depend on how wide a margin is, only on whether there is one. -/
lemma changesAfter_enlarge_margin {m n n' : ℕ} (hm : 0 < m) (hmargin : n = 0 ↔ n' = 0)
    (l : List Bool) :
    changesAfter true (enlarge m l ++ List.replicate n false)
      = changesAfter true (l ++ List.replicate n' false) := by
  rw [changesAfter_append, changesAfter_append, changesAfter_enlarge hm, getLastD_enlarge hm]
  cases n with
  | zero => rw [hmargin.mp rfl]
  | succ n =>
    obtain ⟨n', rfl⟩ := Nat.exists_eq_succ_of_ne_zero fun h => Nat.succ_ne_zero n (hmargin.mpr h)
    rw [changesAfter_margin, changesAfter_margin]

/-- A change behind enlarged colours is met after as many pixels as these take. -/
lemma count_enlarge_of_change {m limit : ℕ} {l : List Bool} {c : Bool} (hm : 0 < m)
    (rest : List Bool) (hlimit : changesAfter true l + 1 = limit) (hc : c ≠ l.getLastD true) :
    count limit (enlarge m l ++ c :: rest) = ⟨limit, m * l.length, false⟩ := by
  rw [count_eq_of_change rest (by rwa [changesAfter_enlarge hm]) (by rwa [getLastD_enlarge hm]),
    length_enlarge]

/-- **The scan of enlarged colours is that of the colours, enlarged**, also with a margin behind
them.  The change that reaches the limit is met at a cell, or at the first pixel of the margin. -/
theorem enlarged_count {m n n' limit : ℕ} (hm : 0 < m) (hpos : 0 < limit)
    (hmargin : n = 0 ↔ n' = 0) (l : List Bool) :
    Enlarged m (count limit (enlarge m l ++ List.replicate n false))
      (count limit (l ++ List.replicate n' false)) := by
  have hchanges := changesAfter_enlarge_margin hm hmargin l
  by_cases hfew : changesAfter true (l ++ List.replicate n' false) < limit
  · rw [count_eq_of_lt hfew, count_eq_of_lt (hchanges.trans_lt hfew), hchanges]
    exact ⟨rfl, rfl, fun h => by cases h⟩
  by_cases hcells : limit ≤ changesAfter true l
  · -- the deciding cell is met at the first of its `m` pixels
    obtain ⟨l₁, c, l₂, rfl, hlimit, hc⟩ := exists_split hpos hcells
    obtain ⟨k, rfl⟩ := Nat.exists_eq_succ_of_ne_zero hm.ne'
    have hsplit : enlarge (k + 1) (l₁ ++ c :: l₂)
        = enlarge (k + 1) l₁ ++ c :: (List.replicate k c ++ enlarge (k + 1) l₂) := by
      simp [enlarge, List.replicate_succ]
    rw [hsplit, List.append_assoc, List.append_assoc, List.cons_append, List.cons_append,
      count_eq_of_change _ hlimit hc, count_enlarge_of_change hm _ hlimit hc]
    exact ⟨rfl, rfl, fun _ => rfl⟩
  · -- the margin brings the last change, so that there is one, and it follows a dark cell
    cases n' with
    | zero => rw [List.replicate_zero, List.append_nil] at hfew; omega
    | succ n' =>
      obtain ⟨n, rfl⟩ := Nat.exists_eq_succ_of_ne_zero fun h =>
        Nat.succ_ne_zero n' (hmargin.mp h)
      rw [changesAfter_append, changesAfter_margin] at hfew
      have hc : false ≠ l.getLastD true := fun h => by rw [if_pos h] at hfew; omega
      have hlimit : changesAfter true l + 1 = limit := by rw [if_neg hc] at hfew; omega
      rw [List.replicate_succ, List.replicate_succ, count_eq_of_change _ hlimit hc,
        count_enlarge_of_change hm _ hlimit hc]
      exact ⟨rfl, rfl, fun _ => rfl⟩

lemma enlarge_one (l : List Bool) : enlarge 1 l = l := by
  induction l with
  | nil => rfl
  | cons c l ih =>
    rw [enlarge, List.flatMap_cons, ← enlarge, ih, List.replicate_one, List.singleton_append]

end Scan

/-! ### Walks through drawings -/

/-- The modules that are met from a module in a direction, the first `n` of them. -/
def Modules.ray (modules : Modules) (x y : ℕ) (dx dy : ℤ) (n : ℕ) : List Bool :=
  (List.range n).map fun k : ℕ => modules.isDark (x + k * dx).toNat (y + k * dy).toNat

lemma Modules.length_ray (modules : Modules) (x y : ℕ) (dx dy : ℤ) (n : ℕ) :
    (modules.ray x y dx dy n).length = n := by
  rw [ray, List.length_map, List.length_range]

namespace Ray

variable {dx dy : ℤ}

/-- A measurement goes on by one pixel or not at all on each axis. -/
lemma Forward.eq_zero_or_one (hd : Forward dx dy) : (dx = 0 ∨ dx = 1) ∧ (dy = 0 ∨ dy = 1) := by
  cases hd <;> omega

/-- From a position inside a grid of `w` columns and `h` rows, `n` steps lead exactly to its
edge. -/
structure Reaches (w h x y : ℕ) (dx dy : ℤ) (n : ℕ) : Prop where
  x_lt : x < w
  y_lt : y < h
  x_le : x + n * dx ≤ w
  y_le : y + n * dy ≤ h
  edge : x + n * dx = w ∨ y + n * dy = h

/-- The directions of a measurement reach the edge. -/
lemma Forward.exists_reaches (hd : Forward dx dy) {x y w h : ℕ} (hx : x < w) (hy : y < h) :
    ∃ n, Reaches w h x y dx dy n := by
  cases hd with
  | diagonal => exact ⟨min (w - x) (h - y), hx, hy, by omega, by omega, by omega⟩
  | horizontal => exact ⟨w - x, hx, hy, by omega, by omega, by omega⟩
  | vertical => exact ⟨h - y, hx, hy, by omega, by omega, by omega⟩

namespace Reaches

variable {w h x y n k : ℕ} (hn : Reaches w h x y dx dy n) (hd : Forward dx dy)
include hn hd

/-- Before it they stay in the columns of the grid. -/
lemma column_lt (hk : k < n) : x + k * dx < w := by
  obtain ⟨hx, -, hxn, -, -⟩ := hn
  cases hd <;> omega

/-- From there on they are outside of it. -/
lemma outside (hk : n ≤ k) : w ≤ x + k * dx ∨ h ≤ y + k * dy := by
  obtain ⟨-, -, -, -, hend⟩ := hn
  cases hd <;> omega

end Reaches

section Axis

variable {m : ℕ} (hm : 0 < m) {dz : ℤ} (hdz : dz = 0 ∨ dz = 1)
include hm hdz

/-- The position that is `k` pixels from the first one of a module lies in the module that is as
many modules away as there are whole ones in `k` pixels. -/
lemma exists_offset (q z k : ℕ) :
    ∃ a, (((q + z * m : ℕ) : ℤ) + k * dz).toNat = q + a ∧ a / m = (z + (k / m : ℕ) * dz).toNat := by
  obtain rfl | rfl := hdz
  · exact ⟨z * m, by omega, by rw [Nat.mul_div_cancel z hm]; omega⟩
  · refine ⟨k + z * m, by omega, ?_⟩
    rw [Nat.add_mul_div_right k z hm]
    generalize k / m = t
    omega

/-- As many pixels as there are in the modules up to the edge do not lead beyond it. -/
lemma offset_lt {z s n k : ℕ} (hz : z < s) (hzn : z + n * dz ≤ s) (hk : k < m * n) :
    ((z * m : ℕ) : ℤ) + k * dz < (s * m : ℕ) := by
  obtain rfl | rfl := hdz
  · have hlt := Nat.mul_lt_mul_of_pos_right hz hm
    omega
  · have hle := Nat.mul_le_mul_right m (show z + n ≤ s by omega)
    rw [Nat.add_mul, Nat.mul_comm n] at hle
    omega

end Axis

end Ray

namespace Drawn

variable {modules : Modules} {m q : ℕ} {image : Bitmap} (h : Drawn modules m q image)

section Ray

variable {dx dy : ℤ} (hd : Ray.Forward dx dy) {x y n : ℕ}
  (hn : Ray.Reaches modules.columns modules.length x y dx dy n)
include h hd hn

/-- A walk from the first pixel of a module meets the colours of the modules in its way, and light
behind the last of them. -/
lemma pixel_eq (k : ℕ) :
    Ray.pixel image (q + x * m : ℕ) (q + y * m : ℕ) dx dy k
      = (modules.ray x y dx dy n).getD (k / m) false := by
  obtain ⟨hdx, hdy⟩ := hd.eq_zero_or_one
  obtain ⟨i, hi, hi'⟩ := Ray.exists_offset h.size_pos hdx q x k
  obtain ⟨j, hj, hj'⟩ := Ray.exists_offset h.size_pos hdy q y k
  rw [Ray.pixel, hi, hj, h.isOn_offset, hi', hj', Modules.ray, List.getD_eq_getElem?_getD,
    List.getElem?_map]
  by_cases hk : k / m < n
  · have hin := hn.column_lt hd hk
    have hcolumns := hn.x_lt
    rw [List.getElem?_range hk, decide_eq_true (by omega), Bool.true_and]
    rfl
  · have hout := hn.outside hd (not_lt.mp hk)
    rw [List.getElem?_eq_none (by rw [List.length_range]; omega), Option.map_none,
      Option.getD_none, Bool.and_eq_false_iff, decide_eq_false_iff_not]
    obtain hout | hout := hout
    · exact Or.inl (by omega)
    · refine Or.inr (Bool.eq_false_iff.mpr fun hdark => ?_)
      have hlt := Modules.lt_length_of_isDark hdark
      omega

/-- The walk stays inside as long as it meets modules. -/
lemma inside_of_lt {k : ℕ} (hk : k < m * n) :
    Ray.inside image ((q + x * m : ℕ) + k * dx) ((q + y * m : ℕ) + k * dy) = true := by
  obtain ⟨hdx, hdy⟩ := hd.eq_zero_or_one
  have hw := Ray.offset_lt h.size_pos hdx hn.x_lt hn.x_le hk
  have hh := Ray.offset_lt h.size_pos hdy hn.y_lt hn.y_le hk
  rw [Ray.inside_iff, h.width_eq, h.height_eq, Drawing.side, Drawing.side]
  refine ⟨⟨?_, by push_cast at hw ⊢; omega⟩, ?_, by push_cast at hh ⊢; omega⟩
  · obtain rfl | rfl := hdx <;> omega
  · obtain rfl | rfl := hdy <;> omega

/-- Behind the last module it is still inside if there is a margin. -/
lemma inside_margin_iff :
    Ray.inside image ((q + x * m : ℕ) + (m * n : ℕ) * dx) ((q + y * m : ℕ) + (m * n : ℕ) * dy)
      = true ↔ q ≠ 0 := by
  have hm : (0 : ℤ) ≤ m := Int.natCast_nonneg m
  have hpos : ∀ z : ℕ, ∀ dz : ℤ,
      ((q + z * m : ℕ) : ℤ) + (m * n : ℕ) * dz = q + (z + n * dz) * m := by
    intro z dz
    push_cast
    ring
  have hw := mul_le_mul_of_nonneg_right hn.x_le hm
  have hh := mul_le_mul_of_nonneg_right hn.y_le hm
  have hedge : (x + n * dx) * m = modules.columns * m ∨ (y + n * dy) * m = modules.length * m :=
    hn.edge.imp (congrArg (· * (m : ℤ))) (congrArg (· * (m : ℤ)))
  obtain ⟨hdx, hdy⟩ := hd.eq_zero_or_one
  have hx0 : 0 ≤ (x + n * dx) * m := mul_nonneg (by obtain rfl | rfl := hdx <;> omega) hm
  have hy0 : 0 ≤ (y + n * dy) * m := mul_nonneg (by obtain rfl | rfl := hdy <;> omega) hm
  rw [Ray.inside_iff, h.width_eq, h.height_eq, Drawing.side, Drawing.side, hpos, hpos]
  push_cast
  omega

/-- **What a walk through a drawing meets**: the modules in its way, as many pixels of each as it is
wide, and then the margin if there is one. -/
theorem exists_cast_colours :
    ∃ r, (r = 0 ↔ q = 0) ∧ (Ray.cast image (q + x * m : ℕ) (q + y * m : ℕ) dx dy).colours
      = Scan.enlarge m (modules.ray x y dx dy n) ++ List.replicate r false := by
  obtain ⟨steps, hcolours, hin, hout⟩ := hd.exists_colours image (q + x * m) (q + y * m)
  have hlast := h.inside_margin_iff hd hn
  have hle : m * n ≤ steps := by
    by_contra hlt
    have hinside := h.inside_of_lt hd hn (not_le.mp hlt)
    rw [hout steps le_rfl] at hinside
    cases hinside
  obtain ⟨r, rfl⟩ := Nat.exists_eq_add_of_le hle
  refine ⟨r, ?_, ?_⟩
  · -- the step behind the last module is inside exactly if the walk goes on for it
    cases r with
    | zero =>
      rw [hout (m * n) le_rfl] at hlast
      simpa using hlast
    | succ r =>
      rw [hin (m * n) (by omega)] at hlast
      simpa using hlast
  · rw [hcolours, funext (h.pixel_eq hd hn)]
    conv_rhs => rw [← Scan.map_range_getD_div h.size_pos, modules.length_ray]

end Ray

/-- **Two drawings are scanned alike**, if one of them has modules of one pixel and either both have
a margin or none has. -/
theorem enlarged_count (h : Drawn modules m q image) {unit : Bitmap} {q' : ℕ}
    (h' : Drawn modules 1 q' unit) (hmargin : q = 0 ↔ q' = 0) {dx dy : ℤ}
    (hd : Ray.Forward dx dy) {x y limit : ℕ} (hx : x < modules.columns) (hy : y < modules.length)
    (hpos : 0 < limit) :
    Scan.Enlarged m
      (Scan.count limit (Ray.cast image (q + x * m : ℕ) (q + y * m : ℕ) dx dy).colours)
      (Scan.count limit (Ray.cast unit (q' + x : ℕ) (q' + y : ℕ) dx dy).colours) := by
  obtain ⟨n, hn⟩ := hd.exists_reaches hx hy
  obtain ⟨r, hr, hcolours⟩ := h.exists_cast_colours hd hn
  obtain ⟨r', hr', hcolours'⟩ := h'.exists_cast_colours hd hn
  rw [Nat.mul_one, Nat.mul_one, Scan.enlarge_one] at hcolours'
  rw [hcolours, hcolours']
  exact Scan.enlarged_count h.size_pos hpos (hr.trans (hmargin.trans hr'.symm)) _

end Drawn

/-! ### Measurements of drawings -/

namespace Pitch

/-- A shown pitch is a fraction that is rounded once. -/
lemma ofScan?_eq_map (round : ℚ → ℚ) (s : Scan) : ofScan? round s = (ofScan? id s).map round := by
  rw [ofScan?, ofScan?]
  split <;> rfl

/-- So is a measured one. -/
lemma measured?_eq_map (round : ℚ → ℚ) (image : Bitmap) (x y : ℕ) (dx dy : ℤ) :
    measured? round image x y dx dy = (measured? id image x y dx dy).map round :=
  ofScan?_eq_map round _

/-- A scan that sees the same changes farther on shows a pitch in proportion. -/
lemma ofScan?_of_enlarged {m : ℕ} {s s' : Scan} (h : Scan.Enlarged m s s') :
    ofScan? id s = (ofScan? id s').map ((m : ℚ) * ·) := by
  rw [ofScan?, ofScan?, h.transitions_eq, h.reachedEdge_eq]
  by_cases hnone : (s'.reachedEdge || decide (s'.transitions < transitions)) = true
  · rw [if_pos hnone, if_pos hnone, Option.map_none]
  · have hstop : s'.reachedEdge = false := (Bool.or_eq_false_iff.mp (Bool.not_eq_true _ ▸ hnone)).1
    rw [if_neg hnone, if_neg hnone, h.distance_eq hstop, Option.map_some, id, id, Nat.cast_mul,
      mul_div_assoc]

/-- Without rounding, the mean of measurements is in proportion to them. -/
lemma mean_id_map (c : ℚ) (l : List ℚ) : mean id (l.map (c * ·)) = c * mean id l := by
  rw [mean_id, mean_id, List.sum_map_mul_left, List.map_id', List.length_map, mul_div_assoc]

section Enlarged

variable {modules : Modules} {m q q' : ℕ} {image unit : Bitmap} (h : Drawn modules m q image)
  (h' : Drawn modules 1 q' unit) (hmargin : q = 0 ↔ q' = 0) {x y : ℕ}
  (hx : x < modules.columns) (hy : y < modules.length)
include h h' hmargin hx hy

/-- What a ray shows in a drawing is in proportion to what it shows in the drawing with modules of
one pixel, before it is rounded. -/
lemma measured?_of_enlarged (round : ℚ → ℚ) {dx dy : ℤ} (hd : Ray.Forward dx dy) :
    measured? round image (q + x * m) (q + y * m) dx dy
      = (measured? id unit (q' + x) (q' + y) dx dy).map fun v : ℚ => round (m * v) := by
  rw [measured?_eq_map, measured?, measured?, seen,
    ofScan?_of_enlarged (h.enlarged_count h' hmargin hd hx hy (by decide)), Option.map_map]
  rfl

/-- Without rounding, the estimate is in proportion. -/
lemma refined_of_enlarged (v : ℚ) :
    refined id image (q + x * m) (q + y * m) (m * v) = m * refined id unit (q' + x) (q' + y) v := by
  have htoList : ∀ o : Option ℚ,
      (o.map fun v : ℚ => id (m * v)).toList = o.toList.map ((m : ℚ) * ·) := by
    intro o
    cases o <;> rfl
  rw [refined, refined, measured?_of_enlarged h h' hmargin hx hy id .horizontal,
    measured?_of_enlarged h h' hmargin hx hy id .vertical, htoList, htoList, ← mean_id_map,
    List.cons_append, List.cons_append, List.map_cons, List.map_append]

end Enlarged

/-- The directions of the three measurements. -/
lemma exists_forward {d : Direction}
    (hd : d ∈ [Direction.diagonal, Direction.horizontal, Direction.vertical]) :
    ∃ dx dy : ℤ, d = ⟨.ofInt dx, .ofInt dy⟩ ∧ Ray.Forward dx dy := by
  simp only [List.mem_cons, List.not_mem_nil, or_false] at hd
  obtain rfl | rfl | rfl := hd
  · exact ⟨1, 1, rfl, .diagonal⟩
  · exact ⟨1, 0, rfl, .horizontal⟩
  · exact ⟨0, 1, rfl, .vertical⟩

/-- An estimate as an option: the refined pitch of the diagonal, if it shows one. -/
lemma estimate_toOption (round : ℚ → ℚ) (image : Bitmap) (x y : ℕ) (wanted : Bool) :
    ((estimate round image (.ofNat x) (.ofNat y)).run wanted).1.map Except.toOption
      = .ok ((measured? round image x y 1 1).map (refined round image x y)) := by
  rw [run_estimate]
  cases measured? round image x y 1 1 <;> rfl

/-- **Modules drawn larger are measured larger.**  Of two drawings of the same modules, the second
one with modules of one pixel, and with margins in both or in none, the scans from the first pixel
of a module reach a limit together, and then at distances in proportion to the size of the modules.
So the measurements succeed together, whatever the rounding.  Along the diagonal and along the axes
they give one fraction and its multiple, each rounded once; without rounding the estimates are in
proportion as well. -/
theorem estimate_render {modules : Modules} {size margin margin' : ℕ} {image unit : Bitmap}
    (hsize : 1 ≤ size) (hmargin : margin = 0 ↔ margin' = 0)
    (himage : Drawing.render modules (.ofNat size) (.ofNat margin) = .ok image)
    (hunit : Drawing.render modules (.ofNat 1) (.ofNat margin') = .ok unit)
    {i j : ℕ} (hi : i < modules.columns) (hj : j < modules.length) :
    (∀ d ∈ [Direction.diagonal, Direction.horizontal, Direction.vertical], ∀ limit : ℕ, 1 ≤ limit →
      ∃ s s', Scan.along image (.ofNat (margin + i * size)) (.ofNat (margin + j * size)) d
          (.ofNat limit) = .ok s
        ∧ Scan.along unit (.ofNat (margin' + i)) (.ofNat (margin' + j)) d (.ofNat limit) = .ok s'
        ∧ (s.transitions = limit ↔ s'.transitions = limit)
        ∧ (s'.transitions = limit → s.distance = size * s'.distance))
    ∧ (∃ shown : Option ℚ, ∀ round,
        (alongDiagonal round unit (.ofNat (margin' + i)) (.ofNat (margin' + j))).map
            Except.toOption = .ok (shown.map round)
        ∧ (alongDiagonal round image (.ofNat (margin + i * size))
            (.ofNat (margin + j * size))).map Except.toOption
          = .ok (shown.map fun v : ℚ => round (size * v)))
    ∧ (∀ axis ∈ [Direction.horizontal, Direction.vertical], ∃ shown : Option ℚ, ∀ round,
        alongAxis? round unit (.ofNat (margin' + i)) (.ofNat (margin' + j)) axis
          = .ok (shown.map round)
        ∧ alongAxis? round image (.ofNat (margin + i * size)) (.ofNat (margin + j * size)) axis
          = .ok (shown.map fun v : ℚ => round (size * v)))
    ∧ ∀ round wanted, ∃ pitch pitch' : Option ℚ,
        ((estimate round image (.ofNat (margin + i * size)) (.ofNat (margin + j * size))).run
          wanted).1.map Except.toOption = .ok pitch
        ∧ ((estimate round unit (.ofNat (margin' + i)) (.ofNat (margin' + j))).run wanted).1.map
            Except.toOption = .ok pitch'
        ∧ pitch.isSome = pitch'.isSome
        ∧ (round = id → pitch = pitch'.map ((size : ℚ) * ·)) := by
  have hcolumns := Nat.zero_lt_of_lt hi
  have h := Drawing.drawn_of_render hsize hcolumns himage
  have h' := Drawing.drawn_of_render Nat.one_pos hcolumns hunit
  have hmeasured := fun round {dx dy : ℤ} (hd : Ray.Forward dx dy) =>
    measured?_of_enlarged h h' hmargin hi hj round hd
  have hmeasured' := fun round (dx dy : ℤ) =>
    measured?_eq_map round unit (margin' + i) (margin' + j) dx dy
  refine ⟨fun d hd limit hlimit => ?_, ⟨measured? id unit (margin' + i) (margin' + j) 1 1, ?_⟩,
    fun axis haxis => ?_, fun round wanted => ?_⟩
  · obtain ⟨dx, dy, rfl, hforward⟩ := exists_forward hd
    have hscan := h.enlarged_count h' hmargin hforward hi hj hlimit
    refine ⟨_, _, Scan.along_ofInt .., Scan.along_ofInt .., by rw [hscan.transitions_eq],
      fun hreached => ?_⟩
    exact hscan.distance_eq ((Scan.transitions_count_eq_iff hlimit).mp hreached)
  · intro round
    rw [alongDiagonal_ofNat, alongDiagonal_ofNat, hmeasured round .diagonal, hmeasured' round]
    cases measured? id unit (margin' + i) (margin' + j) 1 1 <;> exact ⟨rfl, rfl⟩
  · obtain ⟨dx, dy, rfl, hd⟩ := exists_forward (List.mem_cons_of_mem _ haxis)
    refine ⟨measured? id unit (margin' + i) (margin' + j) dx dy, fun round => ?_⟩
    rw [alongAxis?_ofNat, alongAxis?_ofNat, hmeasured round hd, hmeasured' round]
    exact ⟨rfl, rfl⟩
  · refine ⟨_, _, estimate_toOption .., estimate_toOption .., ?_, fun hid => ?_⟩
    · rw [Option.isSome_map, Option.isSome_map, hmeasured round .diagonal, hmeasured' round,
        Option.isSome_map, Option.isSome_map]
    · subst hid
      rw [hmeasured id .diagonal, Option.map_map, Option.map_map]
      congr 1
      funext v
      exact refined_of_enlarged h h' hmargin hi hj v

/-- Stripes that change colour for the fifth time after six modules, along the diagonal and along
the rows. -/
def striped : Modules := List.replicate 7 [true, true, false, true, false, true, false]

/-- What the drawings of the stripes with modules of three pixels and of one show. -/
lemma exists_render_striped :
    ∃ image unit, Drawing.render striped (.ofNat 3) (.ofNat 0) = .ok image
      ∧ Drawing.render striped (.ofNat 1) (.ofNat 0) = .ok unit
      ∧ (∀ round, measured? round image 0 0 1 1 = some (round (18 / 7))
        ∧ measured? round image 0 0 1 0 = some (round (18 / 7)))
      ∧ (∀ round, measured? round unit 0 0 1 1 = some (round (6 / 7))
        ∧ measured? round unit 0 0 1 0 = some (round (6 / 7)))
      ∧ measured? id unit 0 0 0 1 = none := by
  obtain ⟨image, himage, h⟩ := @Drawing.render_eq striped 3 0 (by decide) (by decide) (by decide)
  obtain ⟨unit, hunit, h'⟩ := @Drawing.render_eq striped 1 0 (by decide) (by decide) (by decide)
  have hseen : ((Drawing.render striped (.ofNat 1) (.ofNat 0)).toOption.map fun b =>
      (seen b 0 0 1 1, seen b 0 0 1 0, seen b 0 0 0 1))
        = some (⟨5, 6, false⟩, ⟨5, 6, false⟩, ⟨0, 7, true⟩) := by
    decide +kernel
  rw [hunit] at hseen
  simp only [Except.toOption, Option.map_some, Option.some.injEq, Prod.mk.injEq] at hseen
  obtain ⟨hdiagonal, hhorizontal, hvertical⟩ := hseen
  have hlarger : ∀ round {dx dy : ℤ}, Ray.Forward dx dy → seen unit 0 0 dx dy = ⟨5, 6, false⟩ →
      measured? round image 0 0 dx dy = some (round (18 / 7)) := by
    intro round dx dy hd hshown
    have htimes : ((3 : ℕ) : ℚ) * ((6 : ℕ) / (modules : ℕ)) = 18 / 7 := by norm_num [modules]
    refine (measured?_of_enlarged (x := 0) (y := 0) h h' Iff.rfl (by decide) (by decide)
      round hd).trans ?_
    rw [Nat.add_zero, measured?, hshown, ← htimes]
    rfl
  refine ⟨image, unit, himage, hunit, fun round => ?_, fun round => ?_, ?_⟩
  · exact ⟨hlarger round .diagonal hdiagonal, hlarger round .horizontal hhorizontal⟩
  · rw [measured?, measured?, hdiagonal, hhorizontal]
    exact ⟨rfl, rfl⟩
  · rw [measured?, hvertical]
    rfl

/-- Without rounding, the stripes are measured three times as large if they are drawn three times as
large. -/
theorem estimate_render_striped :
    1 ≤ 3 ∧ (0 = 0 ↔ 0 = 0) ∧ 0 < striped.columns ∧ 0 < striped.length
    ∧ ∃ image unit, Drawing.render striped (.ofNat 3) (.ofNat 0) = .ok image
      ∧ Drawing.render striped (.ofNat 1) (.ofNat 0) = .ok unit
      ∧ ((estimate id unit (.ofNat 0) (.ofNat 0)).run true).1.map Except.toOption
        = .ok (some (6 / 7))
      ∧ ((estimate id image (.ofNat 0) (.ofNat 0)).run true).1.map Except.toOption
        = .ok (some (18 / 7)) := by
  obtain ⟨image, unit, himage, hunit, -, hshown, hvertical⟩ := exists_render_striped
  have hestimate : ((estimate id unit (.ofNat 0) (.ofNat 0)).run true).1.map Except.toOption
      = .ok (some (6 / 7)) := by
    have hmean : mean id [6 / 7, 6 / 7] = 6 / 7 := by norm_num [mean]
    rw [estimate_toOption, (hshown id).1, Option.map_some, refined, (hshown id).2, hvertical]
    exact congrArg (fun v => Except.ok (some v)) hmean
  obtain ⟨-, -, -, hlarger⟩ := estimate_render (by decide) Iff.rfl himage hunit
    (i := 0) (j := 0) (by decide) (by decide)
  obtain ⟨pitch, pitch', hpitch, hpitch', -, htimes⟩ := hlarger id true
  obtain rfl := Except.ok.inj (hpitch'.symm.trans hestimate)
  refine ⟨by decide, Iff.rfl, by decide, by decide, image, unit, himage, hunit, hestimate, ?_⟩
  rw [htimes rfl] at hpitch
  convert hpitch using 2
  norm_num

/-- In binary64 the factor is lost: the drawing that is three times as large has a size that is not
three times the other one, on the diagonal and on the rows, not even after rounding. -/
theorem estimate_render_rounded :
    ∃ image unit p p', Drawing.render striped (.ofNat 3) (.ofNat 0) = .ok image
      ∧ Drawing.render striped (.ofNat 1) (.ofNat 0) = .ok unit
      ∧ alongDiagonal Binary64.nearest image (.ofNat 0) (.ofNat 0) = .ok (.ok p)
      ∧ alongDiagonal Binary64.nearest unit (.ofNat 0) (.ofNat 0) = .ok (.ok p')
      ∧ alongAxis? Binary64.nearest image (.ofNat 0) (.ofNat 0) .horizontal = .ok (some p)
      ∧ alongAxis? Binary64.nearest unit (.ofNat 0) (.ofNat 0) .horizontal = .ok (some p')
      ∧ p ≠ 3 * p' ∧ p ≠ Binary64.nearest (3 * p') := by
  obtain ⟨image, unit, himage, hunit, hshown, hshown', -⟩ := exists_render_striped
  refine ⟨image, unit, Binary64.nearest (18 / 7), Binary64.nearest (6 / 7), himage, hunit,
    ?_, ?_, ?_, ?_, ?_, ?_⟩
  · rw [alongDiagonal_ofNat, (hshown _).1]
  · rw [alongDiagonal_ofNat, (hshown' _).1]
  · rw [alongAxis?_horizontal, (hshown _).2]
  · rw [alongAxis?_horizontal, (hshown' _).2]
  · decide +kernel
  · decide +kernel

end Pitch

end MatrixSymbol
