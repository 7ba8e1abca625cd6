/-
Votes over pixels of one colour (`sampleModule`, section 3.3 of the specification).

A vote goes over the pixels of a square that is cut off at the edge of the bitmap.  It reaches past
the block of pixels that shows a module, but never so far that other modules could outvote it.

* `Vote.read`, `Vote.around_eq_read`: inside the bitmap a vote is never a fault;
* `Vote.countP_window`, `Vote.countP_square`: how many pixels of a square lie in a block;
* `Vote.poll_eq_of_fifths`: a colour that four fifths of the columns share with four fifths of the
  rows carries the vote;
* `Vote.read_block`: a block of one colour reads as that colour, unless it is two pixels wide;
* `Vote.poll_pair`: a block two pixels wide is outvoted if it is light and the pixels right of it
  and below it are dark.
-/
import Mathlib.Tactic
import Mathlib.Order.Interval.Finset.Nat
import MatrixSymbol.Vote
import MatrixSymbol.Proofs.Raster

namespace MatrixSymbol

namespace Vote

/-! ### Votes inside the bitmap -/

/-- The colour of a module of the given size around a pixel. -/
def read (b : Bitmap) (x y size : ℤ) : Bool :=
  if size ≤ 1 then b.isOn x.toNat y.toNat else poll b x y (min maxReach (size / 2).toNat)

/-- Inside the bitmap a vote is never a fault. -/
lemma around_eq_read {b : Bitmap} {x y : ℤ} (hx : 0 ≤ x ∧ x < b.width)
    (hy : 0 ≤ y ∧ y < b.height) (size : ℤ) : around b x y size = .ok (read b x y size) := by
  unfold around read
  split
  · have hxn : x.toNat < b.width := by omega
    have hyn : y.toNat < b.height := by omega
    simp [Bitmap.get, Bitmap.locate, hx.1, hy.1, hxn, hyn, Except.map]
  · rfl

/-! ### Counting pixels -/

/-- A window lists no position twice. -/
lemma nodup_window (n : ℕ) (centre : ℤ) (reach : ℕ) : (window n centre reach).Nodup := by
  refine List.Nodup.filterMap (fun j k p hj hk => ?_) List.nodup_range
  split at hj
  · next hplace =>
    split at hk
    · next hplace' =>
      simp only [Option.mem_def, ite_eq_iff, Option.some.injEq, reduceCtorEq, and_false,
        or_false] at hj hk
      simp only [Int.ofNat_eq_natCast] at hplace hplace'
      omega
    · cases hk
  · cases hj

/-- A window that does not begin before the side lists its positions from the first one on, as far
as they lie in the side. -/
lemma window_eq_filter {n centre reach : ℕ} (h : reach ≤ centre) :
    window n centre reach
      = (List.range' (centre - reach) (2 * reach + 1)).filter fun p => decide (p < n) := by
  rw [List.range'_eq_map_range, ← List.filterMap_eq_filter, List.filterMap_map, window]
  refine List.filterMap_congr fun k _ => ?_
  have hplace : (centre : ℤ) - reach + k = Int.ofNat (centre - reach + k) := by
    rw [Int.ofNat_eq_natCast]
    omega
  rw [hplace, Function.comp_apply, Option.guard]
  simp only [decide_eq_true_eq]

/-- A window that stays clear of the edges moves with its centre. -/
lemma window_add {n n' centre reach d : ℕ} (hlow : reach ≤ centre) (hhigh : centre + reach < n)
    (hn : n + d ≤ n') :
    window n' (centre + d : ℕ) reach = (window n centre reach).map (d + ·) := by
  have hall : ∀ p ∈ List.range' (centre - reach) (2 * reach + 1), decide (p < n) = true := by
    intro p hp
    rw [List.mem_range'_1] at hp
    exact decide_eq_true (by omega)
  have hall' : ∀ p ∈ List.range' (centre + d - reach) (2 * reach + 1),
      decide (p < n') = true := by
    intro p hp
    rw [List.mem_range'_1] at hp
    exact decide_eq_true (by omega)
  rw [window_eq_filter hlow, window_eq_filter (by omega), List.filter_eq_self.mpr hall,
    List.filter_eq_self.mpr hall', List.map_add_range', ← Nat.add_sub_assoc hlow, Nat.add_comm d]

/-- How many positions of a window lie in an interval. -/
lemma countP_window (n centre reach low high : ℕ) :
    (window n centre reach).countP (fun i => decide (low ≤ i ∧ i < high))
      = min high (min n (centre + reach + 1)) - max low (centre - reach) := by
  have hset : ((window n centre reach).filter fun i => decide (low ≤ i ∧ i < high)).toFinset
      = Finset.Ico (max low (centre - reach)) (min high (min n (centre + reach + 1))) := by
    ext i
    simp only [List.mem_toFinset, List.mem_filter, mem_window, decide_eq_true_eq, Finset.mem_Ico]
    omega
  rw [List.countP_eq_length_filter, ← List.toFinset_card_of_nodup ((nodup_window _ _ _).filter _),
    hset, Nat.card_Ico]

/-- How many positions a window has. -/
lemma length_window (n centre reach : ℕ) :
    (window n centre reach).length = min n (centre + reach + 1) - (centre - reach) := by
  have hall : (window n centre reach).countP (fun i => decide (0 ≤ i ∧ i < n))
      = (window n centre reach).length := by
    rw [List.countP_eq_length]
    intro i hi
    simpa using (mem_window.mp hi).1
  rw [← hall, countP_window]
  omega

/-- In a table of pixels, those in given columns and rows are counted by multiplication. -/
lemma countP_table (p q : ℕ → Bool) (rows columns : List ℕ) :
    (rows.flatMap fun j => columns.map fun i => (⟨i, j⟩ : Cell)).countP (fun c => p c.x && q c.y)
      = rows.countP q * columns.countP p := by
  induction rows with
  | nil => simp
  | cons j rows ih =>
    rw [List.flatMap_cons, List.countP_append, ih, List.countP_map, List.countP_cons]
    cases hq : q j with
    | true =>
      simp only [Function.comp_def, hq, Bool.and_true, if_true]
      rw [Nat.succ_mul, Nat.add_comm]
    | false => simp [Function.comp_def, hq]

lemma countP_square (b : Bitmap) (x y : ℤ) (reach : ℕ) (p q : ℕ → Bool) :
    (square b x y reach).countP (fun c => p c.x && q c.y)
      = (window b.height y reach).countP q * (window b.width x reach).countP p :=
  countP_table p q _ _

lemma length_square (b : Bitmap) (x y : ℤ) (reach : ℕ) :
    (square b x y reach).length
      = (window b.height y reach).length * (window b.width x reach).length := by
  have h := countP_square b x y reach (fun _ => true) (fun _ => true)
  simpa using h

/-! ### Colours that carry the vote -/

/-- **A colour carries the vote** if all pixels that lie in certain columns and certain rows have
it, and these are at least four fifths of the columns and of the rows: together they are sixteen
pixels in twenty-five, so that a dark block has more than its two fifths, and a light one leaves
less than that to the others. -/
theorem poll_eq_of_fifths {b : Bitmap} {x y : ℤ} {reach : ℕ} {colour : Bool} (p q : ℕ → Bool)
    (hcolumns : 4 * (window b.width x reach).length
      ≤ 5 * (window b.width x reach).countP p)
    (hrows : 4 * (window b.height y reach).length ≤ 5 * (window b.height y reach).countP q)
    (hpos : 0 < (window b.width x reach).length * (window b.height y reach).length)
    (hcolour : ∀ i j, p i = true → q j = true → b.isOn i j = colour) :
    poll b x y reach = colour := by
  have hblock := countP_square b x y reach p q
  have hlength := length_square b x y reach
  have hshare : 16 * ((window b.height y reach).length * (window b.width x reach).length)
      ≤ 25 * ((window b.height y reach).countP q * (window b.width x reach).countP p) := by
    have := Nat.mul_le_mul hrows hcolumns
    nlinarith
  rw [Nat.mul_comm, ← hlength] at hpos
  rw [← hblock, ← hlength] at hshare
  cases colour with
  | true =>
    have hdark : (square b x y reach).countP (fun c => p c.x && q c.y)
        ≤ (square b x y reach).countP fun c => b.isOn c.x c.y := by
      refine List.countP_mono_left fun c _ hc => ?_
      rw [Bool.and_eq_true] at hc
      exact hcolour _ _ hc.1 hc.2
    show carries _ _ = true
    rw [carries, decide_eq_true_eq, darkShare]
    omega
  | false =>
    have hdark : ((square b x y reach).countP fun c => b.isOn c.x c.y)
        ≤ (square b x y reach).countP fun c => !(p c.x && q c.y) := by
      refine List.countP_mono_left fun c _ hc => ?_
      rw [Bool.not_eq_true', Bool.eq_false_iff]
      intro hin
      rw [Bool.and_eq_true] at hin
      rw [hcolour _ _ hin.1 hin.2] at hc
      cases hc
    have hsplit := List.length_eq_countP_add_countP (fun c : Cell => p c.x && q c.y)
      (l := square b x y reach)
    simp only [Bool.not_eq_true, Bool.decide_eq_false] at hsplit
    show carries _ _ = false
    rw [carries, decide_eq_false_iff_not, darkShare]
    omega

/-! ### Blocks -/

/-- The window around the middle of a block of at least three pixels, cut off at the edge or not:
the block has at least four fifths of it. -/
lemma four_fifths {m low n : ℕ} (hm : 3 ≤ m) (hn : low + m ≤ n) :
    0 < (window n (low + m / 2 : ℕ) (min maxReach (m / 2))).length
      ∧ 4 * (window n (low + m / 2 : ℕ) (min maxReach (m / 2))).length
        ≤ 5 * (window n (low + m / 2 : ℕ) (min maxReach (m / 2))).countP
          fun i => decide (low ≤ i ∧ i < low + m) := by
  rw [length_window, countP_window, maxReach]
  -- three pixels are the whole window, of four a fifth one may be missing, and from five on the
  -- window lies inside the block
  omega

/-- **A block of one colour reads as that colour** around its middle, whatever lies next to it, if
it is a single pixel or at least three pixels wide. -/
theorem read_block {b : Bitmap} {colour : Bool} {m low top : ℕ} (hm : m = 1 ∨ 3 ≤ m)
    (hwidth : low + m ≤ b.width) (hheight : top + m ≤ b.height)
    (hcolour : ∀ i j, low ≤ i → i < low + m → top ≤ j → j < top + m → b.isOn i j = colour) :
    read b ((low + m / 2 : ℕ) : ℤ) ((top + m / 2 : ℕ) : ℤ) m = colour := by
  rcases hm with rfl | hm
  · rw [read, if_pos (by norm_num)]
    exact hcolour _ _ (by simp) (by simp) (by simp) (by simp)
  · have hreach : ((m : ℤ) / 2).toNat = m / 2 := by omega
    rw [read, if_neg (by omega), hreach]
    obtain ⟨hpos, hcolumns⟩ := four_fifths hm hwidth
    obtain ⟨hpos', hrows⟩ := four_fifths hm hheight
    refine poll_eq_of_fifths _ _ hcolumns hrows (Nat.mul_pos hpos hpos') fun i j hi hj => ?_
    rw [decide_eq_true_eq] at hi hj
    exact hcolour i j hi.1 hi.2 hj.1 hj.2

/-! ### Pairs -/

/-- A window around the second pixel of a pair reaches the pixel behind the pair, if there is
one. -/
lemma window_pair {n low : ℕ} (h : low + 2 ≤ n) :
    window n (low + 1 : ℕ) 1 = (if low + 2 < n then [0, 1, 2] else [0, 1]).map (low + ·) := by
  have hfirst : low < n := by omega
  have hsecond : low + 1 < n := by omega
  rw [window_eq_filter (Nat.le_add_left 1 low), Nat.add_sub_cancel]
  simp only [List.range', List.filter_cons, List.filter_nil, hfirst, hsecond, decide_true, if_true,
    decide_eq_true_eq]
  split_ifs <;> rfl

/-- **A block two pixels wide is outvoted** if it is light and the pixels right of it and below it
are dark.  There are four pixels of its own in the vote, two of each of these neighbours and one of
the neighbour on the diagonal, so that nothing less can outvote it, and a dark block is safe. -/
theorem poll_pair {b : Bitmap} {low top : ℕ} (hwidth : low + 2 ≤ b.width)
    (hheight : top + 2 ≤ b.height) {shade : ℕ → ℕ → Bool}
    (hshade : ∀ i j, b.isOn (low + i) (top + j) = shade (i / 2) (j / 2)) :
    poll b (low + 1 : ℕ) (top + 1 : ℕ) 1 = (shade 0 0 || shade 1 0 && shade 0 1) := by
  have hright : ¬ low + 2 < b.width → shade 1 0 = false := by
    intro hend
    rw [← Bool.not_eq_true, show shade 1 0 = b.isOn (low + 2) (top + 0) from (hshade 2 0).symm]
    exact fun hon => hend (Bitmap.lt_of_isOn hon).1
  have hbelow : ¬ top + 2 < b.height → shade 0 1 = false := by
    intro hend
    rw [← Bool.not_eq_true, show shade 0 1 = b.isOn (low + 0) (top + 2) from (hshade 0 2).symm]
    exact fun hon => hend (Bitmap.lt_of_isOn hon).2
  rw [poll, square, window_pair hwidth, window_pair hheight]
  simp only [List.flatMap_map, List.map_map, List.countP_flatMap, List.countP_map,
    Function.comp_def, hshade, List.length_flatMap, List.length_map]
  split_ifs with hx hy hy <;> simp only [List.map_cons, List.map_nil, List.sum_cons, List.sum_nil,
    List.countP_cons, List.countP_nil, List.length_cons, List.length_nil, Nat.zero_div,
    Nat.reduceDiv, Nat.reduceAdd]
  -- nine pixels vote, and at the edge of the bitmap only six or four of them
  · generalize shade 0 0 = own, shade 1 0 = right, shade 0 1 = below, shade 1 1 = diagonal
    revert own right below diagonal
    decide
  · rw [hbelow hy]
    generalize shade 0 0 = own, shade 1 0 = right
    revert own right
    decide
  · rw [hright hx]
    generalize shade 0 0 = own, shade 0 1 = below
    revert own below
    decide
  · rw [hright hx, hbelow hy]
    generalize shade 0 0 = own
    revert own
    decide

end Vote

end MatrixSymbol
