/-
Scans count changes of colour (`scanTransitions`, section 3.1 of the specification).

* `Scan.changesAfter`, `Scan.changes`: the changes of colour in a list, with and without a colour
  before it; `Scan.changesAfter_append`: they add up along a list;
* `Scan.countFrom_append`: the invariant of a scan, which is where it stands after reading colours
  whose changes do not reach the limit;
* `Scan.count_eq_of_lt`, `Scan.count_eq_of_change`: a scan runs off a list with too few changes, and
  stops at the change that reaches the limit;
* `Scan.exists_split`: one of the two always happens; `Scan.reachedEdge_count`,
  `Scan.reachedEdge_count_eq_false`: which one; `Scan.distance_count`: how far on it stops;
* `Scan.enlarge`: colours drawn larger, which changes neither their changes nor the last of them;
* `Ray.walk_append`: the colours of a walk, taken off its front;
  `Ray.walk_eq_map`: a whole walk, up to the edge;
* `Ray.Stays`: a walk is inside up to some step; `Ray.not_inside_longer_side`,
  `Ray.exists_stays_iff`: for how long it is; `Ray.Forward.exists_colours`: the walks of a
  measurement.
-/
import Mathlib.Tactic
import MatrixSymbol.Scan

namespace MatrixSymbol

namespace Scan

/-! ### Changes of colour -/

/-- The changes of colour in a list that follows a given colour. -/
def changesAfter : Bool → List Bool → ℕ
  | _, [] => 0
  | colour, c :: rest => (if c = colour then 0 else 1) + changesAfter c rest

/-- The changes of colour in a list. -/
def changes : List Bool → ℕ
  | [] => 0
  | c :: rest => changesAfter c rest

/-- Changes add up: the second part follows the last colour of the first. -/
lemma changesAfter_append (colour : Bool) (l₁ l₂ : List Bool) :
    changesAfter colour (l₁ ++ l₂)
      = changesAfter colour l₁ + changesAfter (l₁.getLastD colour) l₂ := by
  induction l₁ generalizing colour with
  | nil => simp [changesAfter]
  | cons c l₁ ih =>
    rw [List.cons_append, changesAfter, ih, changesAfter, List.getLastD_cons, Nat.add_assoc]

/-- There are no more changes than colours. -/
lemma changesAfter_le_length (colour : Bool) (l : List Bool) :
    changesAfter colour l ≤ l.length := by
  induction l generalizing colour with
  | nil => simp [changesAfter]
  | cons c l ih =>
    have := ih c
    rw [changesAfter, List.length_cons]
    split <;> omega

@[simp] lemma changesAfter_replicate_self (colour : Bool) (n : ℕ) :
    changesAfter colour (List.replicate n colour) = 0 := by
  induction n with
  | zero => rfl
  | succ n ih => rw [List.replicate_succ, changesAfter, if_pos rfl, ih]

/-- A run of one colour changes no more than a single cell of that colour. -/
lemma changesAfter_replicate_le (colour c : Bool) (n : ℕ) :
    changesAfter colour (List.replicate n c) ≤ changesAfter colour [c] := by
  cases n with
  | zero => exact Nat.zero_le _
  | succ n =>
    rw [List.replicate_succ, changesAfter, changesAfter_replicate_self, changesAfter, changesAfter]

/-- A run of one colour and a cell behind it change colour at most once. -/
lemma changes_replicate_append_le (c d : Bool) (n : ℕ) :
    changes (List.replicate n c ++ [d]) ≤ 1 := by
  cases n with
  | zero => exact Nat.zero_le _
  | succ n =>
    rw [List.replicate_succ, List.cons_append, changes, changesAfter_append,
      changesAfter_replicate_self, Nat.zero_add]
    exact changesAfter_le_length _ _

/-! ### What a scan finds -/

/-- **The invariant of a scan**: after colours whose changes do not reach the limit, it stands on
the last of them with these changes counted, and reads on. -/
lemma countFrom_append {limit : ℕ} {l₁ : List Bool} (l₂ : List Bool) {colour : Bool} {t : ℕ}
    (d : ℕ) (h : t + changesAfter colour l₁ < limit) :
    countFrom limit colour t d (l₁ ++ l₂)
      = countFrom limit (l₁.getLastD colour) (t + changesAfter colour l₁) (d + l₁.length) l₂ := by
  induction l₁ generalizing colour t d with
  | nil => rfl
  | cons c l₁ ih =>
    rw [changesAfter] at h
    rw [List.cons_append, countFrom, List.getLastD_cons, changesAfter, List.length_cons]
    by_cases hc : c = colour
    · rw [if_pos hc] at h
      subst hc
      rw [if_pos rfl, if_pos rfl, ih (d + 1) (by omega), Nat.zero_add, Nat.add_right_comm d 1,
        Nat.add_assoc d]
    · rw [if_neg hc] at h
      rw [if_neg hc, if_neg (by omega), if_neg hc, ih (d + 1) (by omega), Nat.add_assoc t,
        Nat.add_right_comm d 1, Nat.add_assoc d]

/-- With too few changes, the scan runs off the end and has counted all of them. -/
lemma count_eq_of_lt {limit : ℕ} {l : List Bool} (h : changesAfter true l < limit) :
    count limit l = ⟨changesAfter true l, l.length, true⟩ := by
  have hrun : countFrom limit true 0 0 (l ++ [])
      = countFrom limit (l.getLastD true) (0 + changesAfter true l) (0 + l.length) [] :=
    countFrom_append [] 0 (by rwa [Nat.zero_add])
  rw [List.append_nil, Nat.zero_add, Nat.zero_add] at hrun
  exact hrun

/-- The scan stops on the colour that reaches the limit. -/
lemma count_eq_of_change {limit : ℕ} {l₁ : List Bool} {c : Bool} (l₂ : List Bool)
    (hlimit : changesAfter true l₁ + 1 = limit) (hc : c ≠ l₁.getLastD true) :
    count limit (l₁ ++ c :: l₂) = ⟨limit, l₁.length, false⟩ := by
  rw [count, countFrom_append (c :: l₂) 0 (by omega), Nat.zero_add, Nat.zero_add, countFrom,
    if_neg hc, if_pos hlimit, hlimit]

/-- A list with enough changes splits at the one that reaches the limit. -/
lemma exists_split {limit : ℕ} {colour : Bool} {l : List Bool} (hpos : 0 < limit)
    (h : limit ≤ changesAfter colour l) :
    ∃ l₁ c l₂, l = l₁ ++ c :: l₂ ∧ changesAfter colour l₁ + 1 = limit
      ∧ c ≠ l₁.getLastD colour := by
  induction l generalizing colour limit with
  | nil => exact absurd h (by rw [changesAfter]; omega)
  | cons c l ih =>
    rw [changesAfter] at h
    by_cases hc : c = colour
    · rw [if_pos hc, Nat.zero_add] at h
      obtain ⟨l₁, d, l₂, rfl, hlimit, hd⟩ := ih hpos h
      refine ⟨c :: l₁, d, l₂, rfl, ?_, ?_⟩
      · rw [changesAfter, if_pos hc, Nat.zero_add]
        exact hlimit
      · rwa [List.getLastD_cons]
    · rw [if_neg hc] at h
      by_cases hone : limit = 1
      · exact ⟨[], c, l, rfl, by rw [changesAfter, hone], hc⟩
      · obtain ⟨l₁, d, l₂, rfl, hlimit, hd⟩ := @ih (limit - 1) c (by omega) (by omega)
        refine ⟨c :: l₁, d, l₂, rfl, ?_, ?_⟩
        · rw [changesAfter, if_neg hc]
          omega
        · rwa [List.getLastD_cons]

/-- A scan that does not run off has stopped at the change that reaches the limit. -/
lemma split_of_not_reachedEdge {limit : ℕ} {l : List Bool} (hpos : 0 < limit)
    (h : (count limit l).reachedEdge = false) :
    ∃ l₁ c l₂, l = l₁ ++ c :: l₂ ∧ changesAfter true l₁ + 1 = limit ∧ c ≠ l₁.getLastD true
      ∧ count limit l = ⟨limit, l₁.length, false⟩ := by
  by_cases hlt : changesAfter true l < limit
  · rw [count_eq_of_lt hlt] at h
    cases h
  · obtain ⟨l₁, c, l₂, rfl, hlimit, hc⟩ := exists_split hpos (not_lt.mp hlt)
    exact ⟨l₁, c, l₂, rfl, hlimit, hc, count_eq_of_change l₂ hlimit hc⟩

/-- A scan runs off exactly the colours with too few changes. -/
lemma reachedEdge_count {limit : ℕ} {l : List Bool} (hpos : 0 < limit) :
    (count limit l).reachedEdge = true ↔ changesAfter true l < limit := by
  constructor
  · intro h
    by_contra hle
    obtain ⟨l₁, c, l₂, rfl, hlimit, hc⟩ := exists_split hpos (not_lt.mp hle)
    rw [count_eq_of_change l₂ hlimit hc] at h
    cases h
  · intro h
    rw [count_eq_of_lt h]

/-- It stops on the others. -/
lemma reachedEdge_count_eq_false {limit : ℕ} {l : List Bool} (hpos : 0 < limit) :
    (count limit l).reachedEdge = false ↔ limit ≤ changesAfter true l := by
  rw [← Bool.not_eq_true, reachedEdge_count hpos, not_lt]

/-- **No two changes come at the same place.**  So the one that reaches the limit, which comes at
one of the colours, has a place for each of the others before it; and one place more if the first
colour is dark, for that brings no change. -/
lemma distance_count {limit : ℕ} {l : List Bool} (hpos : 0 < limit)
    (h : (count limit l).reachedEdge = false) :
    (count limit l).distance < l.length ∧ limit ≤ (count limit l).distance + 1
      ∧ (l.head? = some true → limit ≤ (count limit l).distance) := by
  obtain ⟨l₁, c, l₂, rfl, hlimit, hc, hcount⟩ := split_of_not_reachedEdge hpos h
  have hle := changesAfter_le_length true l₁
  rw [hcount, List.length_append, List.length_cons]
  dsimp only
  refine ⟨by omega, by omega, fun hhead => ?_⟩
  cases l₁ with
  | nil => exact absurd (Option.some.inj hhead) hc
  | cons d l₁ =>
    obtain rfl : d = true := Option.some.inj hhead
    have hrest := changesAfter_le_length true l₁
    rw [changesAfter, if_pos rfl, Nat.zero_add] at hlimit
    rw [List.length_cons]
    omega

/-- A scan that has stopped does not read on. -/
lemma count_append {limit : ℕ} {l₁ : List Bool} (l₂ : List Bool) (hpos : 0 < limit)
    (h : (count limit l₁).reachedEdge = false) : count limit (l₁ ++ l₂) = count limit l₁ := by
  obtain ⟨l, c, rest, rfl, hlimit, hc, hcount⟩ := split_of_not_reachedEdge hpos h
  rw [hcount, List.append_assoc, List.cons_append, count_eq_of_change _ hlimit hc]

/-! ### Enlarged colours -/

/-- Colours drawn larger: each is repeated `m` times. -/
def enlarge (m : ℕ) (l : List Bool) : List Bool := l.flatMap (List.replicate m)

@[simp] lemma length_enlarge (m : ℕ) (l : List Bool) : (enlarge m l).length = m * l.length := by
  induction l with
  | nil => rfl
  | cons c l ih =>
    rw [enlarge, List.flatMap_cons, List.length_append, List.length_replicate, ← enlarge, ih,
      List.length_cons, Nat.mul_succ, Nat.add_comm]

lemma getLastD_replicate {m : ℕ} (hm : 0 < m) (colour c : Bool) :
    (List.replicate m c).getLastD colour = c := by
  rw [List.getLastD_eq_getLast?, List.getLast?_replicate, if_neg hm.ne', Option.getD_some]

/-- Enlarging keeps the last colour. -/
lemma getLastD_enlarge {m : ℕ} (hm : 0 < m) (colour : Bool) (l : List Bool) :
    (enlarge m l).getLastD colour = l.getLastD colour := by
  induction l generalizing colour with
  | nil => rfl
  | cons c l ih =>
    rw [enlarge, List.flatMap_cons, ← enlarge, List.getLastD_cons, ← ih c,
      List.getLastD_eq_getLast?, List.getLast?_append, Option.getD_or,
      ← List.getLastD_eq_getLast?, ← List.getLastD_eq_getLast?, getLastD_replicate hm]

/-- Enlarging keeps the changes. -/
lemma changesAfter_enlarge {m : ℕ} (hm : 0 < m) (colour : Bool) (l : List Bool) :
    changesAfter colour (enlarge m l) = changesAfter colour l := by
  induction l generalizing colour with
  | nil => rfl
  | cons c l ih =>
    obtain ⟨n, rfl⟩ := Nat.exists_eq_succ_of_ne_zero hm.ne'
    rw [enlarge, List.flatMap_cons, ← enlarge, changesAfter_append, getLastD_replicate hm, ih,
      List.replicate_succ, changesAfter, changesAfter_replicate_self, changesAfter, Nat.add_zero]

/-- Enlarged colours by position. -/
lemma enlarge_eq_map_range {m : ℕ} (hm : 0 < m) (l : List Bool) :
    enlarge m l = (List.range (m * l.length)).map fun k => l.getD (k / m) false := by
  induction l with
  | nil => rfl
  | cons c l ih =>
    rw [enlarge, List.flatMap_cons, ← enlarge, ih, List.length_cons, Nat.mul_succ, Nat.add_comm,
      List.range_add, List.map_append, List.map_map]
    congr 1
    · refine List.ext_getElem (by simp) fun k hk _ => ?_
      rw [List.length_replicate] at hk
      simp [Nat.div_eq_of_lt hk]
    · refine List.map_congr_left fun k _ => ?_
      simp [Nat.add_div_left k hm]

/-- Enlarged colours by position, read past their end. -/
lemma map_range_getD_div {m : ℕ} (hm : 0 < m) (l : List Bool) (q : ℕ) :
    ((List.range (m * l.length + q)).map fun k => l.getD (k / m) false)
      = enlarge m l ++ List.replicate q false := by
  rw [List.range_add, List.map_append, ← enlarge_eq_map_range hm, List.map_map]
  congr 1
  refine List.eq_replicate_iff.mpr ⟨by simp, fun c hc => ?_⟩
  obtain ⟨k, -, rfl⟩ := List.mem_map.mp hc
  have hpast : l.length ≤ (m * l.length + k) / m := by
    rw [Nat.mul_add_div hm]
    exact Nat.le_add_right _ _
  rw [Function.comp_apply, List.getD_eq_getElem?_getD, List.getElem?_eq_none hpast]
  rfl

end Scan

/-! ### Walks -/

namespace Ray

variable {b : Bitmap} {dx dy : ℤ}

/-- The colour that a walk meets after `k` steps. -/
def pixel (b : Bitmap) (x y dx dy : ℤ) (k : ℕ) : Bool :=
  b.isOn (x + k * dx).toNat (y + k * dy).toNat

/-- As long as a walk stays inside, its colours are those of its positions. -/
lemma walk_append {x y : ℤ} {n : ℕ} (fuel : ℕ)
    (h : ∀ k < n, inside b (x + k * dx) (y + k * dy) = true) :
    walk b dx dy (n + fuel) x y
      = (List.range n).map (pixel b x y dx dy) ++ walk b dx dy fuel (x + n * dx) (y + n * dy) := by
  induction n generalizing x y with
  | zero => simp
  | succ n ih =>
    have hhere : inside b x y = true := by simpa using h 0 (Nat.succ_pos n)
    have hshift : ∀ (k : ℕ) (z dz : ℤ), z + dz + k * dz = z + ((k + 1 : ℕ) : ℤ) * dz :=
      fun k z dz => by push_cast; ring
    have hrest : ∀ k < n, inside b (x + dx + k * dx) (y + dy + k * dy) = true := by
      intro k hk
      rw [hshift, hshift]
      exact h (k + 1) (Nat.succ_lt_succ hk)
    have hpixel : pixel b (x + dx) (y + dy) dx dy = pixel b x y dx dy ∘ Nat.succ := by
      funext k
      simp only [pixel, Function.comp_apply, hshift]
    have hfirst : pixel b x y dx dy 0 = b.isOn x.toNat y.toNat := by simp [pixel]
    rw [show n + 1 + fuel = (n + fuel) + 1 by omega, walk, if_pos hhere, ih hrest, hpixel, hshift,
      hshift, List.range_succ_eq_map, List.map_cons, List.map_map, List.cons_append, hfirst]

/-- A walk that stays inside for some steps and then is outside has met the colours of these
steps. -/
lemma walk_eq_map {x y : ℤ} {n fuel : ℕ} (hfuel : n ≤ fuel)
    (hin : ∀ k < n, inside b (x + k * dx) (y + k * dy) = true)
    (hout : inside b (x + n * dx) (y + n * dy) = false) :
    walk b dx dy fuel x y = (List.range n).map (pixel b x y dx dy) := by
  obtain ⟨extra, rfl⟩ := Nat.exists_eq_add_of_le hfuel
  rw [walk_append extra hin]
  cases extra with
  | zero => rw [walk, List.append_nil]
  | succ extra => rw [walk, hout, if_neg Bool.false_ne_true, List.append_nil]

lemma inside_iff {x y : ℤ} :
    inside b x y = true ↔ (0 ≤ x ∧ x < b.width) ∧ 0 ≤ y ∧ y < b.height := by
  simp only [inside, Bool.and_eq_true, decide_eq_true_eq]
  tauto

/-! ### How long a walk stays inside -/

/-- A walk has not left the bitmap up to its `k`-th step. -/
def Stays (b : Bitmap) (x y dx dy : ℤ) (k : ℕ) : Prop :=
  ∀ j ≤ k, inside b (x + j * dx) (y + j * dy) = true

/-- Steps of one coordinate lead from inside a side to outside it, if there are as many as the side
has pixels. -/
lemma not_mem_side {z dz : ℤ} {side n : ℕ} (hn : side ≤ n) (hz : 0 ≤ z ∧ z < side) (hdz : dz ≠ 0) :
    ¬ (0 ≤ z + n * dz ∧ z + n * dz < side) := by
  obtain hback | hforth := lt_or_gt_of_ne hdz
  · have hsteps : (n : ℤ) * dz ≤ n * (-1) := mul_le_mul_of_nonneg_left (by omega) (by omega)
    omega
  · have hsteps : (n : ℤ) * 1 ≤ n * dz := mul_le_mul_of_nonneg_left (by omega) (by omega)
    omega

/-- A walk that starts inside and moves is outside after as many steps as the longer side has
pixels. -/
lemma not_inside_longer_side {x y : ℤ} (hmoves : dx ≠ 0 ∨ dy ≠ 0) (hstart : inside b x y = true) :
    inside b (x + (max b.width b.height : ℕ) * dx) (y + (max b.width b.height : ℕ) * dy)
      = false := by
  rw [inside_iff] at hstart
  rw [← Bool.not_eq_true, inside_iff]
  rintro ⟨hx, hy⟩
  obtain hdx | hdy := hmoves
  · exact not_mem_side (le_max_left _ _) hstart.1 hdx hx
  · exact not_mem_side (le_max_right _ _) hstart.2 hdy hy

/-- **A walk that moves stays inside for a number of steps**, at most as many as the longer side has
pixels, and meets the colours of these positions. -/
theorem exists_stays_iff (b : Bitmap) (x y : ℤ) (hmoves : dx ≠ 0 ∨ dy ≠ 0) :
    ∃ n ≤ max b.width b.height, (∀ k, Stays b x y dx dy k ↔ k < n)
      ∧ (cast b x y dx dy).colours = (List.range n).map (pixel b x y dx dy) := by
  have hleaves : ∃ n ≤ max b.width b.height, inside b (x + n * dx) (y + n * dy) = false := by
    cases hstart : inside b x y with
    | false => exact ⟨0, Nat.zero_le _, by simpa using hstart⟩
    | true => exact ⟨_, le_rfl, not_inside_longer_side hmoves hstart⟩
  obtain ⟨last, hlast, hout⟩ := hleaves
  have hsome : ∃ n : ℕ, inside b (x + n * dx) (y + n * dy) = false := ⟨last, hout⟩
  have hbound : Nat.find hsome ≤ max b.width b.height := (Nat.find_min' hsome hout).trans hlast
  have hin : ∀ k < Nat.find hsome, inside b (x + k * dx) (y + k * dy) = true :=
    fun k hk => Bool.not_eq_false _ ▸ Nat.find_min hsome hk
  refine ⟨Nat.find hsome, hbound, fun k => ⟨fun hstays => ?_, fun hk j hj => ?_⟩,
    walk_eq_map hbound hin (Nat.find_spec hsome)⟩
  · by_contra hle
    have hthere := hstays _ (not_lt.mp hle)
    rw [Nat.find_spec hsome] at hthere
    cases hthere
  · exact hin j (hj.trans_lt hk)

/-! ### The walks of a measurement -/

/-- The directions of a measurement. -/
inductive Forward : ℤ → ℤ → Prop
  | diagonal : Forward 1 1
  | horizontal : Forward 1 0
  | vertical : Forward 0 1

lemma Forward.moves (hd : Forward dx dy) : dx ≠ 0 ∨ dy ≠ 0 := by
  cases hd <;> omega

/-- Outside the bitmap all is light. -/
lemma Forward.pixel_eq_false (hd : Forward dx dy) {x y k : ℕ}
    (hout : inside b (x + k * dx) (y + k * dy) = false) : pixel b x y dx dy k = false := by
  rw [← Bool.not_eq_true, inside_iff] at hout
  rw [pixel, Bitmap.isOn, Bool.and_eq_false_iff, Bool.and_eq_false_iff, decide_eq_false_iff_not,
    decide_eq_false_iff_not]
  left
  cases hd <;> omega

/-- A measurement meets the colours of its positions up to the edge, behind which it does not come
back. -/
lemma Forward.exists_colours (hd : Forward dx dy) (b : Bitmap) (x y : ℕ) :
    ∃ n, (cast b x y dx dy).colours = (List.range n).map (pixel b x y dx dy)
      ∧ (∀ k < n, inside b (x + k * dx) (y + k * dy) = true)
      ∧ ∀ k ≥ n, inside b (x + k * dx) (y + k * dy) = false := by
  obtain ⟨n, -, hstays, hcolours⟩ := exists_stays_iff b x y hd.moves
  have hin : ∀ k < n, inside b (x + k * dx) (y + k * dy) = true :=
    fun k hk => (hstays k).mpr hk k le_rfl
  have hlast : ¬ inside b (x + n * dx) (y + n * dy) = true := by
    intro hthere
    have hmore : Stays b x y dx dy n := fun k hk => hk.lt_or_eq.elim (hin k) fun h => h ▸ hthere
    exact lt_irrefl n ((hstays n).mp hmore)
  refine ⟨n, hcolours, hin, fun k hk => ?_⟩
  rw [inside_iff] at hlast
  rw [← Bool.not_eq_true, inside_iff]
  cases hd <;> omega

end Ray

end MatrixSymbol
