/-
Votes as a share of the pixels within reach (`sampleModule`, section 3.3 of the specification).

A module of more than one pixel is read by the pixels within reach of its centre, as far as they
lie in the bitmap.  The loop over rows and columns visits each of them once, so that the vote is a
comparison of two numbers of pixels.

* `Number.IsHeld`: binary64 holds a number; `Vote.reach?_eq`: a vote reaches half a module, and at
  most two pixels;
* `Vote.voters`: the pixels within reach of a centre; `Vote.mem_square`, `Vote.nodup_square`: the
  loop visits these, and each once;
* `Vote.poll_eq_true_iff`, `Vote.poll_mono`: a module is dark if two pixels in five are;
* `Vote.colour_eq_poll`: arbitrary numbers come to the vote over whole positions;
* `Vote.colour_eq_share`: the colour of a module is the share of dark pixels within reach.
-/
import MatrixSymbol.Proofs.Exactness
import MatrixSymbol.Proofs.Votes

namespace MatrixSymbol

/-! ### Halves -/

/-- **Halving keeps what binary64 holds**, from one on. -/
theorem Binary64.nearest_div_two {q : ℚ} (hq : 1 ≤ q) (hkept : nearest q = q) :
    nearest (q / 2) = q / 2 := by
  obtain ⟨n, hn, hround⟩ := exists_nearest_eq (lt_of_lt_of_le one_pos hq)
  have hunit : -53 ≤ unitExponent q := by
    have hexp : 0 ≤ exponentOf q := by
      by_contra hneg
      have hlt := (exponentOf_spec (lt_of_lt_of_le one_pos hq)).2
      have hone : (2 : ℚ) ^ (exponentOf q + 1) ≤ 1 :=
        zpow_le_one_of_nonpos₀ (by norm_num) (by omega)
      linarith
    rw [unitExponent_eq]
    omega
  have hhalf : q / 2 = n * 2 ^ (unitExponent q - 1) := by
    rw [zpow_sub_one₀ two_ne_zero, ← mul_assoc, ← hround, hkept]
    rfl
  rw [hhalf]
  -- 2 ^ 53 is the one significand with a bit too many, but it is a power of two
  obtain hlt | rfl := lt_or_eq_of_le hn
  · exact nearest_mul_zpow hlt (by omega)
  · have h := nearest_mul_zpow (n := 1) (by norm_num) (u := 53 + (unitExponent q - 1)) (by omega)
    rw [zpow_add₀ two_ne_zero] at h
    norm_num at h ⊢
    exact h

namespace Number

/-- Binary64 holds a number: an infinity, a zero of either sign, or a fraction that is not
rounded. -/
def IsHeld : Number → Prop
  | finite q => ofRat q = finite q
  | _ => True

/-- What a fraction that is held is not: rounded, or too great. -/
lemma isHeld_finite_iff {q : ℚ} (hq : 0 ≤ q) :
    IsHeld (finite q) ↔ Binary64.nearest q = q ∧ q < overflow := by
  rw [IsHeld, ofRat_of_nonneg hq]
  constructor
  · intro h
    split_ifs at h with hover
    have hkept := finite.inj h
    rw [hkept] at hover
    exact ⟨hkept, not_le.mp hover⟩
  · rintro ⟨hkept, hlt⟩
    rw [hkept, if_neg hlt.not_ge]

/-- The sum of whole numbers. -/
lemma add_ofInt {c : Number} {z k : ℤ} (hc : c.toInt? = some z) (h : IsExact (z + k)) :
    c + ofInt k = ofInt (z + k) := by
  rw [toInt?_eq_some_iff] at hc
  cases c with
  | finite q =>
    obtain rfl : q = z := Option.some.inj hc
    change ofRat (z + k) = _
    rw [← Int.cast_add]
    exact h
  | negZero =>
    obtain rfl : z = 0 := by exact_mod_cast (Option.some.inj hc).symm
    rw [zero_add]
    rfl
  | infinite s => cases hc
  | nan => cases hc

lemma ofInt_lt_zero (z : ℤ) : (ofInt z).lt 0 = decide (z < 0) := by
  change decide ((z : ℚ) < ((0 : ℕ) : ℤ)) = _
  exact decide_eq_decide.mpr (by norm_num)

lemma ofNat_le_ofInt (n : ℕ) (z : ℤ) : (ofNat n).le (ofInt z) = decide ((n : ℤ) ≤ z) := by
  change decide (((n : ℤ) : ℚ) ≤ z) = _
  exact decide_eq_decide.mpr Int.cast_le

/-- A number above one is a fraction above one, or infinite. -/
lemma cases_of_one_lt {size : Number} (hsize : Number.lt 1 size = true) :
    (∃ q : ℚ, 1 < q ∧ size = .finite q) ∨ size = .infinite false := by
  cases size with
  | finite q =>
    have hq : ((1 : ℕ) : ℤ) < q := of_decide_eq_true hsize
    exact Or.inl ⟨q, by exact_mod_cast hq, rfl⟩
  | negZero => exact absurd hsize (by decide)
  | infinite s =>
    cases s with
    | false => exact Or.inr rfl
    | true => cases hsize
  | nan => cases hsize

/-- So it is not at most one. -/
lemma le_one_eq_false {size : Number} (hsize : Number.lt 1 size = true) : size.le 1 = false := by
  obtain ⟨q, hq, rfl⟩ | rfl := cases_of_one_lt hsize
  · exact decide_eq_false (not_le.mpr (by exact_mod_cast hq))
  · rfl

/-- A whole number above one. -/
lemma one_lt_of_toInt? {size : Number} {s : ℤ} (hs : size.toInt? = some s)
    (hsize : Number.lt 1 size = true) : 1 < s := by
  rw [toInt?_eq_some_iff] at hs
  obtain ⟨q, hq, rfl⟩ | rfl := cases_of_one_lt hsize
  · obtain rfl : q = s := Option.some.inj hs
    exact_mod_cast hq
  · cases hs

end Number

namespace Vote

/-! ### Reach -/

/-- How far a vote reaches for a module of the given size: half of it in whole pixels, and at most
two. -/
def reachOf : Number → ℕ
  | .finite q => min maxReach ⌊q / 2⌋.toNat
  | .infinite false => maxReach
  | _ => 0

lemma reachOf_le (size : Number) : reachOf size ≤ maxReach := by
  unfold reachOf
  split
  · exact min_le_left _ _
  · exact le_rfl
  · exact Nat.zero_le _

/-- The smaller of two natural numbers. -/
lemma min_ofNat (m n : ℕ) : Number.min (.ofNat m) (.ofNat n) = .ofNat (min m n) := by
  have hlt : ∀ j k : ℕ, (Number.ofNat j).lt (.ofNat k) = decide (j < k) := fun j k => by
    change decide (((j : ℤ) : ℚ) < (k : ℤ)) = _
    exact decide_eq_decide.mpr (by norm_num)
  have hsign : (Number.ofNat m).isNegative = false := decide_eq_false (by norm_num)
  rw [Number.min, hlt, hlt, hsign]
  obtain h | rfl | h := lt_trichotomy m n
  · simp [Number.isNaN, Number.ofNat, h, h.le]
  · simp [Number.isNaN, Number.ofNat]
  · simp [Number.isNaN, Number.ofNat, h, h.le, h.not_gt]

/-- Half of a whole size. -/
lemma reachOf_of_toInt? {size : Number} {s : ℤ} (hs : size.toInt? = some s) :
    reachOf size = min maxReach (s / 2).toNat := by
  rw [Number.toInt?_eq_some_iff] at hs
  cases size with
  | finite q =>
    obtain rfl : q = s := Option.some.inj hs
    have hfloor : ⌊(s : ℚ) / 2⌋ = s / 2 := Rat.floor_intCast_div_natCast s 2
    rw [reachOf, hfloor]
  | negZero =>
    obtain rfl : s = 0 := by exact_mod_cast (Option.some.inj hs).symm
    rfl
  | infinite t => cases hs
  | nan => cases hs

/-- A module of more than one pixel is read within half its size, and within two pixels. -/
lemma reach?_eq {size : Number} (hsize : Number.lt 1 size = true) (hheld : size.IsHeld) :
    reach? size = some (reachOf size) := by
  obtain ⟨q, hq, rfl⟩ | rfl := Number.cases_of_one_lt hsize
  · obtain ⟨hkept, hlt⟩ := (Number.isHeld_finite_iff (one_pos.trans hq).le).mp hheld
    have hhalf : Number.finite q / 2 = .finite (q / 2) := by
      have hdiv : Number.finite q / 2 = .ofRat (q / 2) :=
        Number.finite_div_finite (b := 2) (by linarith) two_ne_zero
      rw [hdiv]
      exact (Number.isHeld_finite_iff (by linarith)).mpr
        ⟨Binary64.nearest_div_two hq.le hkept, by linarith⟩
    have hfloor : (Number.finite (q / 2)).floor = .ofNat ⌊q / 2⌋.toNat := by
      change Number.finite (⌊q / 2⌋ : ℤ) = _
      rw [Number.ofNat, Int.toNat_of_nonneg (Int.floor_nonneg.mpr (by linarith))]
    rw [reach?, hhalf, hfloor, min_ofNat, reachOf]
    exact Number.toNat?_ofNat _
  · rfl

/-! ### Windows of numbers -/

/-- Around a whole number, the window of numbers is the window of positions. -/
lemma windowNumbers_eq {n reach : ℕ} {c : Number} {z : ℤ} (hc : c.toInt? = some z)
    (hz : 0 ≤ z ∧ z < n) (hn : n ≤ Bitmap.capacity) (hreach : reach ≤ maxReach) :
    windowNumbers n c reach = (window n z reach).map .ofNat := by
  rw [Bitmap.capacity] at hn
  rw [maxReach] at hreach
  have hstep : ∀ k ∈ List.range (2 * reach + 1),
      c + Number.ofInt (k - reach) = .ofInt (z - reach + k) := by
    intro k hk
    rw [List.mem_range] at hk
    have hexact : Number.IsExact (z + (k - reach)) := Number.isExact_of_lt (by omega)
    rw [Number.add_ofInt hc hexact]
    congr 1
    omega
  rw [windowNumbers, List.map_congr_left hstep, ← List.filterMap_eq_filter, List.filterMap_map,
    window, List.map_filterMap]
  refine List.filterMap_congr fun k _ => ?_
  rw [Function.comp_apply, Option.guard, Number.ofInt_lt_zero, Number.ofNat_le_ofInt]
  generalize z - reach + k = place
  cases place with
  | ofNat p =>
    by_cases hp : p < n
    · simp [hp, Number.ofInt, Number.ofNat]
    · simp [hp, not_lt.mp hp]
  | negSucc p => simp

/-! ### The loop over rows and columns -/

/-- Along a row the dark pixels are counted. -/
lemma foldlM_row (b : Bitmap) {j : ℕ} (hj : j < b.height) (columns : List ℕ)
    (hcolumns : ∀ i ∈ columns, i < b.width) (n : ℕ) :
    (columns.map Number.ofNat).foldlM (fun n x => return n + (← b.get x (.ofNat j)).toNat) n
      = (.ok (n + columns.countP fun i => b.isOn i j) : Except Fault ℕ) := by
  induction columns generalizing n with
  | nil => rfl
  | cons i columns ih =>
    obtain ⟨hi, hcolumns⟩ := List.forall_mem_cons.mp hcolumns
    have hrest := ih hcolumns (n + (b.isOn i j).toNat)
    rw [List.map_cons, List.foldlM_cons, Bitmap.get_ofNat b hi hj]
    refine hrest.trans (congrArg Except.ok ?_)
    rw [List.countP_cons]
    cases b.isOn i j <;> simp [Nat.add_assoc, Nat.add_comm 1]

/-- Row by row the dark pixels of a square are counted. -/
lemma foldlM_rows (b : Bitmap) (columns : List ℕ) (hcolumns : ∀ i ∈ columns, i < b.width)
    (rows : List ℕ) (hrows : ∀ j ∈ rows, j < b.height) (n : ℕ) :
    (rows.map Number.ofNat).foldlM (fun n y => (columns.map Number.ofNat).foldlM
        (fun n x => return n + (← b.get x y).toNat) n) n
      = (.ok (n + (rows.flatMap fun j => columns.map fun i => (⟨i, j⟩ : Cell)).countP
          fun c => b.isOn c.x c.y) : Except Fault ℕ) := by
  induction rows generalizing n with
  | nil => rfl
  | cons j rows ih =>
    obtain ⟨hj, hrows⟩ := List.forall_mem_cons.mp hrows
    rw [List.map_cons, List.foldlM_cons, foldlM_row b hj columns hcolumns]
    refine (ih hrows _).trans (congrArg Except.ok ?_)
    rw [List.flatMap_cons, List.countP_append, List.countP_map, Nat.add_assoc]
    rfl

/-- A module that is larger than one pixel, around a whole position inside the bitmap: the vote over
numbers is the vote over positions. -/
lemma pollNumbers_eq {b : Bitmap} {x y : ℤ} {cx cy : Number} (hcx : cx.toInt? = some x)
    (hcy : cy.toInt? = some y) (hx : 0 ≤ x ∧ x < b.width) (hy : 0 ≤ y ∧ y < b.height) {reach : ℕ}
    (hreach : reach ≤ maxReach) : pollNumbers b cx cy reach = .ok (poll b x y reach) := by
  obtain ⟨hw, hh⟩ := b.sides_le_capacity
  have hfold := foldlM_rows b (window b.width x reach) (fun i hi => (mem_window.mp hi).1)
    (window b.height y reach) (fun j hj => (mem_window.mp hj).1) 0
  rw [pollNumbers, windowNumbers_eq hcx hx hw hreach, windowNumbers_eq hcy hy hh hreach, hfold,
    List.length_map, List.length_map, poll, length_square, Nat.zero_add, Nat.mul_comm]
  rfl

/-- **Any module of more than one pixel is put to the vote**, whether its size is whole or not. -/
theorem colour_eq_poll {b : Bitmap} {x y : ℤ} {cx cy size : Number} (hcx : cx.toInt? = some x)
    (hcy : cy.toInt? = some y) (hx : 0 ≤ x ∧ x < b.width) (hy : 0 ≤ y ∧ y < b.height)
    (hsize : Number.lt 1 size = true) (hheld : size.IsHeld) :
    colour b cx cy size = .ok (poll b x y (reachOf size)) := by
  cases hwhole : size.toInt? with
  | none =>
    rw [colour, hcx, hcy, hwhole]
    simp only [Number.le_one_eq_false hsize, reach?_eq hsize hheld]
    exact pollNumbers_eq hcx hcy hx hy (reachOf_le size)
  | some s =>
    have hs := Number.one_lt_of_toInt? hwhole hsize
    rw [colour, hcx, hcy, hwhole]
    exact (around_eq_read hx hy s).trans (by rw [read, if_neg hs.not_ge, reachOf_of_toInt? hwhole])

/-! ### Voters -/

/-- The pixels of a bitmap within reach of a centre. -/
def voters (b : Bitmap) (x y : ℤ) (reach : ℕ) : Finset Cell :=
  ((Finset.range b.width ×ˢ Finset.range b.height).image fun p => ⟨p.1, p.2⟩).filter
    fun c => |(c.x : ℤ) - x| ≤ reach ∧ |(c.y : ℤ) - y| ≤ reach

/-- The pixels of a set that are on. -/
def darkOf (b : Bitmap) (S : Finset Cell) : Finset Cell := S.filter fun c => b.isOn c.x c.y = true

lemma mem_voters {b : Bitmap} {x y : ℤ} {reach : ℕ} {c : Cell} :
    c ∈ voters b x y reach ↔ (c.x < b.width ∧ c.y < b.height)
      ∧ |(c.x : ℤ) - x| ≤ reach ∧ |(c.y : ℤ) - y| ≤ reach := by
  obtain ⟨i, j⟩ := c
  simp [voters]

/-- The centre is a voter exactly if it lies inside the bitmap. -/
lemma mem_voters_self {x y : ℤ} (hx : 0 ≤ x) (hy : 0 ≤ y) (b : Bitmap) (reach : ℕ) :
    ⟨x.toNat, y.toNat⟩ ∈ voters b x y reach ↔ x < b.width ∧ y < b.height := by
  have hxn : (x.toNat : ℤ) - x = 0 := by omega
  have hyn : (y.toNat : ℤ) - y = 0 := by omega
  rw [mem_voters, hxn, hyn, abs_zero]
  dsimp only
  omega

/-- The loop visits the pixels within reach. -/
lemma mem_square {b : Bitmap} {x y : ℤ} {reach : ℕ} {c : Cell} :
    c ∈ square b x y reach ↔ c ∈ voters b x y reach := by
  obtain ⟨i, j⟩ := c
  simp only [square, List.mem_flatMap, List.mem_map, mem_window, mem_voters, Cell.mk.injEq, abs_le]
  constructor
  · rintro ⟨_, hrow, _, hcolumn, rfl, rfl⟩
    omega
  · rintro ⟨hin, hnear⟩
    exact ⟨j, by omega, i, by omega, rfl, rfl⟩

/-- The loop visits no pixel twice. -/
lemma nodup_square (b : Bitmap) (x y : ℤ) (reach : ℕ) : (square b x y reach).Nodup := by
  refine List.nodup_flatMap.mpr ⟨fun j _ => ?_, ?_⟩
  · refine (nodup_window b.width x reach).map fun i i' h => ?_
    cases h
    rfl
  · refine (nodup_window b.height y reach).imp fun {j j'} hne => ?_
    rw [Function.onFun, List.disjoint_left]
    intro c hc hc'
    obtain ⟨i, -, rfl⟩ := List.mem_map.mp hc
    obtain ⟨i', -, h⟩ := List.mem_map.mp hc'
    cases h
    exact hne rfl

/-- The loop counts the pixels within reach, and the dark ones among them. -/
lemma square_counts (b : Bitmap) (x y : ℤ) (reach : ℕ) :
    (square b x y reach).length = (voters b x y reach).card
      ∧ ((square b x y reach).countP fun c => b.isOn c.x c.y)
        = (darkOf b (voters b x y reach)).card := by
  have hsquare : (square b x y reach).toFinset = voters b x y reach := by
    ext c
    rw [List.mem_toFinset, mem_square]
  constructor
  · rw [← hsquare, List.toFinset_card_of_nodup (nodup_square b x y reach)]
  · rw [darkOf, ← hsquare, ← List.toFinset_filter,
      List.toFinset_card_of_nodup ((nodup_square b x y reach).filter _),
      List.countP_eq_length_filter]

/-! ### The share of dark voters -/

variable {b b' : Bitmap} {x y : ℤ} {reach : ℕ}

/-- **A module is dark if two pixels in five are.** -/
theorem poll_eq_true_iff : poll b x y reach = true
    ↔ 2 * (voters b x y reach).card ≤ 5 * (darkOf b (voters b x y reach)).card := by
  obtain ⟨htotal, hdark⟩ := square_counts b x y reach
  rw [poll, carries, htotal, hdark, decide_eq_true_eq, darkShare]
  omega

/-- **More dark pixels do not make a module light**, as long as the same pixels are within reach. -/
theorem poll_mono (hreach : voters b' x y reach = voters b x y reach)
    (hmore : ∀ c ∈ voters b x y reach, b.isOn c.x c.y = true → b'.isOn c.x c.y = true)
    (h : poll b x y reach = true) : poll b' x y reach = true := by
  rw [poll_eq_true_iff] at h ⊢
  have hsub : darkOf b (voters b x y reach) ⊆ darkOf b' (voters b x y reach) := by
    intro c hc
    rw [darkOf, Finset.mem_filter] at hc ⊢
    exact ⟨hc.1, hmore c hc.1 hc.2⟩
  have hcard := Finset.card_le_card hsub
  rw [hreach]
  omega

/-- A vote depends on the pixels within reach alone. -/
lemma poll_congr (hreach : voters b' x y reach = voters b x y reach)
    (hsame : ∀ c ∈ voters b x y reach, b'.isOn c.x c.y = b.isOn c.x c.y) :
    poll b' x y reach = poll b x y reach := by
  refine Bool.eq_iff_iff.mpr ⟨poll_mono hreach.symm fun c hc hon => ?_,
    poll_mono hreach fun c hc hon => ?_⟩
  · rwa [← hsame c (hreach ▸ hc)]
  · rwa [hsame c hc]

/-- Dark pixels alone are a dark module. -/
lemma poll_of_dark (h : ∀ c ∈ voters b x y reach, b.isOn c.x c.y = true) :
    poll b x y reach = true := by
  rw [poll_eq_true_iff, darkOf, Finset.filter_true_of_mem h]
  omega

/-- Light pixels alone are a light module. -/
lemma poll_of_light (hreach : (voters b x y reach).Nonempty)
    (h : ∀ c ∈ voters b x y reach, b.isOn c.x c.y = false) : poll b x y reach = false := by
  have hnone : darkOf b (voters b x y reach) = ∅ :=
    Finset.filter_false_of_mem fun c hc => by rw [h c hc]; exact Bool.false_ne_true
  have hpos := hreach.card_pos
  rw [← Bool.not_eq_true, poll_eq_true_iff, hnone, Finset.card_empty]
  omega

/-- **The colour of a module is the share of dark pixels within reach.**  Around a whole position
inside the bitmap, a module of more than one pixel has a colour; it is dark exactly if two in five
are dark of the pixels that the bitmap has at most half the size of the module away, and at most two
pixels away.  There is such a pixel, and the loop visits each of them once.  So the colour depends
on these pixels alone, turning more of them on does not make it light, and pixels of one colour
agree on it. -/
theorem colour_eq_share {cx cy size : Number} (hcx : cx.toInt? = some x) (hcy : cy.toInt? = some y)
    (hx : 0 ≤ x ∧ x < b.width) (hy : 0 ≤ y ∧ y < b.height) (hsize : Number.lt 1 size = true)
    (hheld : size.IsHeld) {S : Finset Cell} (hS : voters b x y (reachOf size) = S) :
    ∃ dark, colour b cx cy size = .ok dark
      ∧ (dark = true ↔ 2 * S.card ≤ 5 * (darkOf b S).card)
      ∧ S.Nonempty
      ∧ (square b x y (reachOf size)).Nodup
      ∧ (∀ c, c ∈ square b x y (reachOf size) ↔ c ∈ S)
      ∧ (∀ b', voters b' x y (reachOf size) = S → ∃ dark', colour b' cx cy size = .ok dark'
        ∧ ((∀ c ∈ S, b'.isOn c.x c.y = b.isOn c.x c.y) → dark' = dark)
        ∧ ((∀ c ∈ S, b.isOn c.x c.y = true → b'.isOn c.x c.y = true) →
          dark = true → dark' = true))
      ∧ ((∀ c ∈ S, b.isOn c.x c.y = false) → dark = false)
      ∧ ((∀ c ∈ S, b.isOn c.x c.y = true) → dark = true) := by
  subst hS
  have hcentre := (mem_voters_self hx.1 hy.1 b (reachOf size)).mpr ⟨hx.2, hy.2⟩
  refine ⟨poll b x y (reachOf size), colour_eq_poll hcx hcy hx hy hsize hheld, poll_eq_true_iff,
    ⟨_, hcentre⟩, nodup_square b x y _, fun c => mem_square, fun b' hreach => ?_,
    poll_of_light ⟨_, hcentre⟩, poll_of_dark⟩
  -- the centre is a voter of the other bitmap too, and so lies inside it
  rw [← hreach, mem_voters_self hx.1 hy.1] at hcentre
  exact ⟨poll b' x y (reachOf size),
    colour_eq_poll hcx hcy ⟨hx.1, hcentre.1⟩ ⟨hy.1, hcentre.2⟩ hsize hheld,
    poll_congr hreach, poll_mono hreach⟩

/-- A row of three pixels, the first of them dark. -/
def streak : Bitmap :=
  .ofFn 3 1 (by decide) (by decide) (by decide) fun x _ => x == 0

/-- A module of two and a half pixels around the first pixel of the row: one of the two pixels that
the bitmap has within reach is dark. -/
theorem colour_eq_share_streak :
    Number.lt 1 (.finite (5 / 2)) = true ∧ Number.IsHeld (.finite (5 / 2))
    ∧ voters streak 0 0 (reachOf (.finite (5 / 2))) = {⟨0, 0⟩, ⟨1, 0⟩}
    ∧ colour streak 0 0 (.finite (5 / 2)) = .ok true := by
  have hsize : Number.lt 1 (.finite (5 / 2)) = true := by decide +kernel
  have hheld : Number.IsHeld (.finite (5 / 2)) := by
    show Number.ofRat (5 / 2) = _
    decide +kernel
  have hS : voters streak 0 0 (reachOf (.finite (5 / 2))) = {⟨0, 0⟩, ⟨1, 0⟩} := by decide +kernel
  have hzero : Number.toInt? 0 = some 0 := rfl
  obtain ⟨dark, hcolour, hdark, -⟩ :=
    colour_eq_share hzero hzero (by decide) (by decide) hsize hheld hS
  obtain rfl : dark = true := hdark.mpr (by decide)
  exact ⟨hsize, hheld, hS, hcolour⟩

end Vote

end MatrixSymbol
