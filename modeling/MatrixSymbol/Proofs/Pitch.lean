/-
The pitch measured from a pixel of a bitmap, and how small it can be (`moduleSizeFromDiagonal` and
`moduleSizeOneWay`, section 3.2 of the specification).

* `Pitch.usable`, `Pitch.run_estimate_of_scan`: the estimate is the mean of what three scans show,
  if that of the diagonal shows something; `Pitch.mean_id`: the mean without rounding;
* `Pitch.seen`, `Pitch.measured?`, `Pitch.refined`: the scan from a pixel, the pitch it shows, and
  the mean with what the axes show; `Pitch.run_estimate`: estimating gives this mean, or the failure
  of the diagonal, and never a fault;
* `Pitch.measured?_eq_some_iff`: a ray shows a pitch exactly if it changes colour five times;
* `Pitch.estimated`, `Pitch.run_estimate_eq_ok_iff`: what is then estimated;
* `Pitch.exists_isOn_below`: the diagonal shows a pitch only if there are dark pixels below;
* `Pitch.exists_steps_of_count`, `Pitch.exists_steps`: a measurement is a seventh of a whole number
  of steps, of which there are at least four, and at least five from a dark pixel;
  `Pitch.room_of_diagonal`: so there is room for these;
* `Pitch.half_le_refined`: the pitch is at least half a pixel.
-/
import MatrixSymbol.Pitch
import MatrixSymbol.Proofs.Raster
import MatrixSymbol.Proofs.Rounding
import MatrixSymbol.Proofs.Transitions

namespace MatrixSymbol

namespace Pitch

/-! ### Closed form of the estimate -/

/-- From numbers that stand for integers, a measurement sees the colours along the ray between
them. -/
lemma scan_of_toInt? (image : Bitmap) {x y : Number} {i j : ℤ} (hx : x.toInt? = some i)
    (hy : y.toInt? = some j) (dx dy : ℤ) :
    scan image x y ⟨.ofInt dx, .ofInt dy⟩
      = .ok (Scan.count transitions (Ray.cast image i j dx dy).colours) := by
  simp [scan, Scan.along, Scan.limitOf, Scan.ofRay, Ray.cast, hx, hy]

/-- The measurements of which an estimate is the mean: the diagonal, and the axes that show one. -/
def usable (diagonal : ℚ) (horizontal vertical : Option ℚ) : List ℚ :=
  diagonal :: horizontal.toList ++ vertical.toList

section Scans

variable (round : ℚ → ℚ) {image : Bitmap} {x y : Number} {d h v : Scan}

lemma alongDiagonal_of_scan (hd : scan image x y .diagonal = .ok d) :
    alongDiagonal round image x y
      = .ok (match ofScan? round d with
          | some pitch => .ok pitch
          | none => .error (.brokenDiagonal x y d.transitions transitions)) := by
  rw [alongDiagonal, hd]
  rfl

lemma alongAxis?_of_scan {axis : Direction} (h : scan image x y axis = .ok d) :
    alongAxis? round image x y axis = .ok (ofScan? round d) := by
  rw [alongAxis?, h]
  rfl

/-- **The estimate, by what the three scans find**: the mean of the usable measurements, and a
failure if the diagonal shows nothing.  It is a fault only if a scan is. -/
theorem run_estimate_of_scan (hd : scan image x y .diagonal = .ok d)
    (hh : scan image x y .horizontal = .ok h) (hv : scan image x y .vertical = .ok v)
    (wanted : Bool) :
    ((estimate round image x y).run wanted).1
      = .ok (match ofScan? round d with
          | some pitch => .ok (mean round (usable pitch (ofScan? round h) (ofScan? round v)))
          | none => .error (.brokenDiagonal x y d.transitions transitions)) := by
  rw [estimate, alongDiagonal_of_scan round hd, alongAxis?_of_scan round hh,
    alongAxis?_of_scan round hv]
  cases ofScan? round d with
  | none => rfl
  | some pitch => rfl

end Scans

/-- What a measurement sees from a pixel, in whole steps. -/
def seen (image : Bitmap) (x y : ℕ) (dx dy : ℤ) : Scan :=
  Scan.count transitions (Ray.cast image x y dx dy).colours

/-- From a pixel in whole steps, a measurement sees the colours along the ray. -/
lemma scan_ofNat (image : Bitmap) (x y : ℕ) (dx dy : ℤ) :
    scan image (.ofNat x) (.ofNat y) ⟨.ofInt dx, .ofInt dy⟩ = .ok (seen image x y dx dy) :=
  scan_of_toInt? image (Number.toInt?_ofNat x) (Number.toInt?_ofNat y) dx dy

variable (round : ℚ → ℚ)

/-- The pitch that is seen from a pixel in whole steps, if any. -/
def measured? (image : Bitmap) (x y : ℕ) (dx dy : ℤ) : Option ℚ :=
  ofScan? round (seen image x y dx dy)

/-- The mean of a pitch measured along the diagonal and what the axes show. -/
def refined (image : Bitmap) (x y : ℕ) (diagonal : ℚ) : ℚ :=
  mean round (diagonal :: (measured? round image x y 1 0).toList
    ++ (measured? round image x y 0 1).toList)

lemma alongDiagonal_ofNat (image : Bitmap) (x y : ℕ) :
    alongDiagonal round image (.ofNat x) (.ofNat y)
      = .ok (match measured? round image x y 1 1 with
          | some pitch => .ok pitch
          | none => .error (.brokenDiagonal (.ofNat x) (.ofNat y)
              (seen image x y 1 1).transitions transitions)) :=
  alongDiagonal_of_scan round (scan_ofNat image x y 1 1)

lemma alongAxis?_ofNat (image : Bitmap) (x y : ℕ) (dx dy : ℤ) :
    alongAxis? round image (.ofNat x) (.ofNat y) ⟨.ofInt dx, .ofInt dy⟩
      = .ok (measured? round image x y dx dy) :=
  alongAxis?_of_scan round (scan_ofNat image x y dx dy)

lemma alongAxis?_horizontal (image : Bitmap) (x y : ℕ) :
    alongAxis? round image (.ofNat x) (.ofNat y) .horizontal
      = .ok (measured? round image x y 1 0) := alongAxis?_ofNat round image x y 1 0

lemma alongAxis?_vertical (image : Bitmap) (x y : ℕ) :
    alongAxis? round image (.ofNat x) (.ofNat y) .vertical
      = .ok (measured? round image x y 0 1) := alongAxis?_ofNat round image x y 0 1

/-- **The estimate from a pixel**: the mean of what the diagonal and the axes show, and a failure
if the diagonal shows nothing.  It is never a fault. -/
theorem run_estimate (image : Bitmap) (x y : ℕ) (wanted : Bool) :
    ((estimate round image (.ofNat x) (.ofNat y)).run wanted).1
      = .ok (match measured? round image x y 1 1 with
          | some pitch => .ok (refined round image x y pitch)
          | none => .error (.brokenDiagonal (.ofNat x) (.ofNat y)
              (seen image x y 1 1).transitions transitions)) :=
  run_estimate_of_scan round (scan_ofNat image x y 1 1) (scan_ofNat image x y 1 0)
    (scan_ofNat image x y 0 1) wanted

/-- Without rounding, the mean of measurements is their sum divided by their number. -/
lemma mean_id (l : List ℚ) : mean id l = l.sum / l.length := by
  rw [List.sum_eq_foldl]
  rfl

variable {round}

/-- A scan that runs off shows no pitch. -/
lemma ofScan?_of_reachedEdge {s : Scan} (h : s.reachedEdge = true) : ofScan? round s = none := by
  rw [ofScan?, h]
  rfl

/-- Nor does such a ray. -/
lemma measured?_of_reachedEdge {image : Bitmap} {x y : ℕ} {dx dy : ℤ}
    (h : (seen image x y dx dy).reachedEdge = true) : measured? round image x y dx dy = none :=
  ofScan?_of_reachedEdge h

/-- Too few changes of colour show no pitch. -/
lemma measured?_eq_none_of_lt {image : Bitmap} {x y : ℕ} {dx dy : ℤ}
    (hfew : Scan.changesAfter true (Ray.cast image x y dx dy).colours < 5) :
    measured? round image x y dx dy = none :=
  measured?_of_reachedEdge ((Scan.reachedEdge_count (by decide)).mpr hfew)

/-- A scan shows a pitch exactly if its colours change five times. -/
lemma ofScan?_count_eq_some_iff {l : List Bool} {pitch : ℚ} :
    ofScan? round (Scan.count transitions l) = some pitch
      ↔ 5 ≤ Scan.changesAfter true l
        ∧ pitch = round ((Scan.count transitions l).distance / 7) := by
  cases hedge : (Scan.count transitions l).reachedEdge with
  | true =>
    have hfew := (Scan.reachedEdge_count (by decide)).mp hedge
    rw [ofScan?_of_reachedEdge hedge]
    refine ⟨fun h => (by cases h), fun h => absurd h.1 (not_le.mpr hfew)⟩
  | false =>
    have hmany := (Scan.reachedEdge_count_eq_false (by decide)).mp hedge
    obtain ⟨l₁, c, l₂, -, -, -, hcount⟩ := Scan.split_of_not_reachedEdge (by decide) hedge
    rw [hcount]
    exact ⟨fun h => ⟨hmany, (Option.some.inj h).symm⟩, fun h => congrArg some h.2.symm⟩

lemma ofScan?_count_isSome_iff {l : List Bool} :
    (ofScan? round (Scan.count transitions l)).isSome ↔ 5 ≤ Scan.changesAfter true l := by
  rw [Option.isSome_iff_exists]
  exact ⟨fun ⟨_, h⟩ => (ofScan?_count_eq_some_iff.mp h).1,
    fun h => ⟨_, ofScan?_count_eq_some_iff.mpr ⟨h, rfl⟩⟩⟩

/-- **A ray shows a pitch exactly if it changes colour five times before it leaves the image**, and
then a seventh of the steps to the fifth change. -/
theorem measured?_eq_some_iff {image : Bitmap} {x y : ℕ} {dx dy : ℤ} {pitch : ℚ} :
    measured? round image x y dx dy = some pitch
      ↔ 5 ≤ Scan.changesAfter true (Ray.cast image x y dx dy).colours
        ∧ pitch = round ((seen image x y dx dy).distance / 7) :=
  ofScan?_count_eq_some_iff

/-- The diagonal shows a pitch only if there are dark pixels below the row in which it starts. -/
lemma exists_isOn_below {image : Bitmap} {x y : ℕ} {pitch : ℚ}
    (h : measured? round image x y 1 1 = some pitch) : ∃ i j, y < j ∧ image.isOn i j = true := by
  by_contra hnone
  push Not at hnone
  obtain ⟨n, hcolours, -, -⟩ := Ray.Forward.diagonal.exists_colours image x y
  have hlight : ∀ k, Ray.pixel image x y 1 1 (k + 1) = false := by
    intro k
    exact Bool.eq_false_iff.mpr (hnone _ _ (by omega))
  have hfew : Scan.changesAfter true (Ray.cast image x y 1 1).colours < 5 := by
    rw [hcolours]
    cases n with
    | zero => exact Nat.zero_lt_succ 4
    | succ n =>
      have hrest : ((List.range n).map Nat.succ).map (Ray.pixel image x y 1 1)
          = List.replicate n false := by
        rw [List.map_map]
        refine List.eq_replicate_iff.mpr ⟨by simp, fun c hc => ?_⟩
        obtain ⟨k, -, rfl⟩ := List.mem_map.mp hc
        exact hlight k
      have hchange := Scan.changesAfter_replicate_le (Ray.pixel image x y 1 1 0) false n
      have hone := Scan.changesAfter_le_length (Ray.pixel image x y 1 1 0) [false]
      rw [List.length_singleton] at hone
      rw [List.range_succ_eq_map, List.map_cons, hrest, Scan.changesAfter]
      split <;> omega
  rw [measured?_eq_none_of_lt hfew] at h
  cases h

/-- The pitch that is estimated from a pixel whose diagonal changes colour five times: a seventh of
the steps to the fifth change, refined by the axes. -/
def estimated (round : ℚ → ℚ) (image : Bitmap) (x y : ℕ) : ℚ :=
  refined round image x y (round ((seen image x y 1 1).distance / 7))

/-- **Estimating succeeds exactly if the diagonal changes colour five times.** -/
theorem run_estimate_eq_ok_iff {image : Bitmap} {x y : ℕ} {pitch : ℚ} {wanted : Bool} :
    ((estimate round image (.ofNat x) (.ofNat y)).run wanted).1 = .ok (.ok pitch)
      ↔ 5 ≤ Scan.changesAfter true (Ray.cast image x y 1 1).colours
        ∧ pitch = estimated round image x y := by
  rw [run_estimate]
  cases hdiagonal : measured? round image x y 1 1 with
  | none =>
    refine ⟨fun h => (by cases h), fun h => ?_⟩
    rw [measured?_eq_some_iff.mpr ⟨h.1, rfl⟩] at hdiagonal
    cases hdiagonal
  | some diagonal =>
    obtain ⟨hmany, rfl⟩ := measured?_eq_some_iff.mp hdiagonal
    refine ⟨fun h => ⟨hmany, (Except.ok.inj (Except.ok.inj h)).symm⟩, fun h => ?_⟩
    rw [h.2]
    rfl

/-! ### How small a pitch can be -/

/-- A ray from a dark pixel starts dark. -/
lemma head?_cast_colours {image : Bitmap} {x y : ℕ} (hon : image.isOn x y = true) (dx dy : ℤ) :
    (Ray.cast image x y dx dy).colours.head? = some true := by
  obtain ⟨hx, hy⟩ := Bitmap.lt_of_isOn hon
  have hinside : Ray.inside image x y = true := by simp [Ray.inside, hx, hy]
  obtain ⟨n, hn⟩ := Nat.exists_eq_succ_of_ne_zero
    (show max image.width image.height ≠ 0 by have := image.width_pos; omega)
  rw [Ray.cast, hn, Ray.walk, if_pos hinside, List.head?_cons, Int.toNat_natCast,
    Int.toNat_natCast, hon]

/-- What colours show is a seventh of a number of steps, which do not lead past them.  There are at
least four steps, and five if the first colour is dark and brings no change. -/
lemma exists_steps_of_count {l : List Bool} {pitch : ℚ}
    (h : ofScan? round (Scan.count transitions l) = some pitch) :
    ∃ n : ℕ, 4 ≤ n ∧ (l.head? = some true → 5 ≤ n) ∧ n < l.length ∧ pitch = round (n / 7) := by
  obtain ⟨hmany, rfl⟩ := ofScan?_count_eq_some_iff.mp h
  obtain ⟨hlength, hfour, hfive⟩ := Scan.distance_count (by decide)
    ((Scan.reachedEdge_count_eq_false (by decide)).mpr hmany)
  exact ⟨_, Nat.le_of_succ_le_succ hfour, hfive, hlength, rfl⟩

/-- A measurement from a dark pixel is a seventh of a number of steps.  There are at least five of
them, and all of them stay on the ray. -/
lemma exists_steps {image : Bitmap} {x y : ℕ} {dx dy : ℤ} {pitch : ℚ}
    (hon : image.isOn x y = true) (h : measured? round image x y dx dy = some pitch) :
    ∃ n : ℕ, 5 ≤ n ∧ n < (Ray.cast image x y dx dy).colours.length ∧ pitch = round (n / 7) := by
  obtain ⟨n, -, hfive, hlength, hpitch⟩ := exists_steps_of_count h
  exact ⟨n, hfive (head?_cast_colours hon dx dy), hlength, hpitch⟩

/-- Where the diagonal shows a pitch, there is room for its steps right of the pixel and below it.
-/
lemma room_of_diagonal {image : Bitmap} {x y : ℕ} {pitch : ℚ} (hon : image.isOn x y = true)
    (h : measured? round image x y 1 1 = some pitch) :
    x + 5 < image.width ∧ y + 5 < image.height := by
  obtain ⟨n, hn, hlength, -⟩ := exists_steps hon h
  obtain ⟨steps, hcolours, hin, -⟩ := Ray.Forward.diagonal.exists_colours image x y
  rw [hcolours, List.length_map, List.length_range] at hlength
  have hfive := hin 5 (by omega)
  rw [Ray.inside_iff] at hfive
  omega

variable (hr : IsRounding round)
include hr

/-- A measurement from a dark pixel is at least half a pixel. -/
lemma half_le_measured? {image : Bitmap} {x y : ℕ} {dx dy : ℤ} {pitch : ℚ}
    (hon : image.isOn x y = true) (h : measured? round image x y dx dy = some pitch) :
    1 / 2 ≤ pitch := by
  obtain ⟨n, hn, -, rfl⟩ := exists_steps hon h
  have hn' : (5 : ℚ) ≤ n := by exact_mod_cast hn
  have hle := hr.half_le (n := 1) (q := n / 7) (by norm_num) (by push_cast; linarith)
  rwa [Nat.cast_one] at hle

/-- Summing measurements of at least half a pixel, half a pixel comes with each of them: the sum so
far is bounded by a half-integer, which rounding keeps. -/
lemma half_le_foldl {l : List ℚ} {k : ℕ} {sum : ℚ} (hl : ∀ m ∈ l, 1 / 2 ≤ m)
    (hk : k + l.length < 2 ^ 53) (hsum : (k : ℚ) / 2 ≤ sum) :
    ((k + l.length : ℕ) : ℚ) / 2 ≤ l.foldl (fun sum m => round (sum + m)) sum := by
  induction l generalizing k sum with
  | nil => simpa using hsum
  | cons m l ih =>
    rw [List.length_cons] at hk ⊢
    have hm := hl m List.mem_cons_self
    have hstep : ((k + 1 : ℕ) : ℚ) / 2 ≤ round (sum + m) :=
      hr.half_le (by omega) (by push_cast; linarith)
    have hrest := ih (fun q hq => hl q (List.mem_cons_of_mem m hq)) (by omega) hstep
    rw [List.foldl_cons, show k + (l.length + 1) = k + 1 + l.length by omega]
    exact hrest

/-- The quotient that the mean of measurements of at least half a pixel rounds is at least half a
pixel. -/
lemma half_le_quotient {l : List ℚ} (hl : ∀ m ∈ l, 1 / 2 ≤ m) (hne : l ≠ [])
    (hlen : l.length < 2 ^ 53) :
    ((1 : ℕ) : ℚ) / 2 ≤ l.foldl (fun sum m => round (sum + m)) 0 / l.length := by
  have hpos : (0 : ℚ) < l.length := by exact_mod_cast List.length_pos_iff.mpr hne
  have hsum : ((0 + l.length : ℕ) : ℚ) / 2 ≤ l.foldl (fun sum m => round (sum + m)) 0 :=
    half_le_foldl hr hl (by omega) (by simp)
  rw [Nat.zero_add] at hsum
  rw [le_div_iff₀ hpos, Nat.cast_one]
  linarith

section Refined

variable {image : Bitmap} {x y : ℕ} {diagonal : ℚ} (hon : image.isOn x y = true)
  (h : measured? round image x y 1 1 = some diagonal)
include hon h

/-- The pitch is a rounded quotient of at least half a pixel, from any dark pixel. -/
lemma exists_refined_eq_round :
    ∃ q, ((1 : ℕ) : ℚ) / 2 ≤ q ∧ refined round image x y diagonal = round q := by
  refine ⟨_, half_le_quotient hr (fun m hm => ?_) (by simp) ?_, rfl⟩
  · simp only [List.cons_append, List.mem_cons, List.mem_append, Option.mem_toList] at hm
    rcases hm with rfl | hm | hm
    · exact half_le_measured? hr hon h
    · exact half_le_measured? hr hon hm
    · exact half_le_measured? hr hon hm
  · have hone : ∀ o : Option ℚ, o.toList.length ≤ 1 := fun o => by cases o <;> simp
    have hhor := hone (measured? round image x y 1 0)
    have hver := hone (measured? round image x y 0 1)
    simp only [List.cons_append, List.length_cons, List.length_append]
    omega

/-- **The pitch is at least half a pixel**, from any dark pixel. -/
theorem half_le_refined : 1 / 2 ≤ refined round image x y diagonal := by
  obtain ⟨q, hq, hpitch⟩ := exists_refined_eq_round hr hon h
  have hround := hr.half_le (by norm_num) hq
  rwa [hpitch, ← Nat.cast_one (R := ℚ)]

end Refined

end Pitch

end MatrixSymbol
