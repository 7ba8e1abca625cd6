/-
Integers that binary64 holds exactly.

These are the integers with at most 53 binary digits before their trailing zeros, up to the
overflow.  A factor of such an integer is one as well, so that a division that is exact in whole
numbers is exact in binary64.

* `Binary64.nearest_neg`: rounding is symmetric;
* `Binary64.IsShort`, `Binary64.nearest_natCast_iff`: the natural numbers that rounding keeps;
* `Number.IsExact`: a number holds an integer; `Number.IsExact.of_mul`: its factors are held, too;
* `Number.ofInt_div_ofNat`, `Number.ofInt_sub_ofNat`: quotients and differences of such integers.
-/
import MatrixSymbol.Proofs.Arithmetic

namespace MatrixSymbol

namespace Binary64

/-! ### Negative fractions -/

/-- Rounding to whole numbers is symmetric: of two neighbours a negation exchanges the lower and the
upper one, and keeps the even one. -/
lemma roundEven_neg (q : ℚ) : roundEven (-q) = -roundEven q := by
  have hlow : (q.floor : ℚ) ≤ q := Rat.le_floor_iff.mp le_rfl
  have hhigh : q < q.floor + 1 := by
    have h : ¬ q.floor + 1 ≤ q.floor := by omega
    rw [Rat.le_floor_iff] at h
    push_cast at h
    exact not_le.mp h
  obtain hwhole | hbetween := hlow.eq_or_lt
  · rw [← hwhole, ← Int.cast_neg, roundEven_intCast, roundEven_intCast]
  · have hfloor : (-q).floor = -q.floor - 1 := by
      apply le_antisymm
      · refine Int.le_sub_one_of_lt (not_le.mp fun h => ?_)
        rw [Rat.le_floor_iff] at h
        push_cast at h
        linarith
      · rw [Rat.le_floor_iff]
        push_cast
        linarith
    unfold roundEven
    dsimp only
    rw [hfloor]
    push_cast
    -- The remainders of the two fractions add up to one.
    obtain hless | hhalf | hmore := lt_trichotomy (q - q.floor) (1 / 2)
    · rw [if_pos hless, if_neg (by linarith), if_pos (by linarith)]
      omega
    · rw [if_neg hhalf.not_lt, if_neg hhalf.not_gt, if_neg (by linarith), if_neg (by linarith)]
      omega
    · rw [if_neg hmore.not_gt, if_pos hmore, if_pos (by linarith)]
      omega

lemma exponentOf_neg (q : ℚ) : exponentOf (-q) = exponentOf q := by
  rw [exponentOf, exponentOf, Rat.neg_num, Rat.neg_den, Int.natAbs_neg]

/-- **Rounding is symmetric.** -/
theorem nearest_neg (q : ℚ) : nearest (-q) = -nearest q := by
  have hunit : unitExponent (-q) = unitExponent q := by
    rw [unitExponent_eq, unitExponent_eq, exponentOf_neg]
  rw [nearest_eq, nearest_eq, hunit, neg_div, roundEven_neg, Int.cast_neg, neg_mul]

/-! ### Natural numbers that are kept -/

/-- A natural number with at most 53 binary digits before its trailing zeros. -/
def IsShort (n : ℕ) : Prop := ∃ m < 2 ^ 53, ∃ u, n = m * 2 ^ u

lemma isShort_of_lt {n : ℕ} (h : n < 2 ^ 53) : IsShort n := ⟨n, h, 0, by rw [pow_zero, mul_one]⟩

lemma isShort_two_pow (u : ℕ) : IsShort (2 ^ u) := ⟨1, by norm_num, u, by rw [one_mul]⟩

/-- **A factor of a short number is short**, since the odd part of the factor divides the short part
of the number. -/
theorem IsShort.of_mul {k s : ℕ} (h : IsShort (k * s)) (hs : 0 < s) : IsShort k := by
  obtain ⟨m, hm, u, hmul⟩ := h
  obtain rfl | hk := Nat.eq_zero_or_pos k
  · exact isShort_of_lt (by norm_num)
  obtain ⟨a, odd, hodd, rfl⟩ := Nat.exists_eq_two_pow_mul_odd hk.ne'
  have hdvd : odd ∣ m := by
    have h : odd ∣ m * 2 ^ u := hmul ▸ Dvd.intro_left (2 ^ a * s) (by ring)
    exact (hodd.coprime_two_right.pow_right u).dvd_of_dvd_mul_right h
  have hmpos : 0 < m := by
    refine Nat.pos_of_ne_zero fun hzero => ?_
    rw [hzero, zero_mul] at hmul
    exact (Nat.mul_pos hk hs).ne' hmul
  exact ⟨odd, (Nat.le_of_dvd hmpos hdvd).trans_lt hm, a, Nat.mul_comm _ _⟩

/-- A whole multiple of a power of two, by a factor of at most 53 binary digits, is short: the power
is either a fraction, so that the number has few digits itself, or whole. -/
lemma isShort_of_eq_mul_zpow {n m : ℕ} {u : ℤ} (hm : m ≤ 2 ^ 53) (h : (n : ℚ) = m * 2 ^ u) :
    IsShort n := by
  obtain hunit | hunit := le_total u 0
  · have hle : (n : ℚ) ≤ m := by
      rw [h]
      exact mul_le_of_le_one_right m.cast_nonneg (zpow_le_one_of_nonpos₀ (by norm_num) hunit)
    obtain hlt | rfl := ((Nat.cast_le.mp hle).trans hm).lt_or_eq
    · exact isShort_of_lt hlt
    · exact isShort_two_pow 53
  · obtain ⟨k, rfl⟩ := Int.eq_ofNat_of_zero_le hunit
    rw [zpow_natCast] at h
    have hn : n = m * 2 ^ k := by exact_mod_cast h
    obtain hlt | rfl := hm.lt_or_eq
    · exact ⟨m, hlt, k, hn⟩
    · rw [hn, ← pow_add]
      exact isShort_two_pow _

/-- **Rounding keeps the short numbers**, and no others. -/
theorem nearest_natCast_iff {n : ℕ} : nearest n = n ↔ IsShort n := by
  constructor
  · intro h
    obtain rfl | hn := Nat.eq_zero_or_pos n
    · exact isShort_of_lt (by norm_num)
    · obtain ⟨m, hm, hround⟩ := exists_nearest_eq (q := n) (by exact_mod_cast hn)
      exact isShort_of_eq_mul_zpow hm (h.symm.trans hround)
  · rintro ⟨m, hm, u, rfl⟩
    have h := nearest_mul_zpow hm (u := u) (by omega)
    rw [zpow_natCast] at h
    push_cast
    exact h

/-- The same for integers. -/
lemma nearest_intCast_iff {z : ℤ} : nearest z = z ↔ IsShort z.natAbs := by
  rw [← nearest_natCast_iff]
  obtain h | h := z.natAbs_eq
  · conv_lhs => rw [h, Int.cast_natCast]
  · conv_lhs => rw [h, Int.cast_neg, Int.cast_natCast, nearest_neg, neg_inj]

end Binary64

namespace Number

/-! ### Integers that are held -/

/-- Binary64 holds an integer. -/
def IsExact (z : ℤ) : Prop := ofRat z = ofInt z

lemma abs_eq (q : ℚ) : q.abs = |q| := by
  obtain h | h := le_total 0 q
  · rw [Rat.abs_of_nonneg h, abs_of_nonneg h]
  · rw [Rat.abs_of_nonpos h, abs_of_nonpos h]

/-- **The integers that are held** are the short ones below the overflow. -/
theorem isExact_iff {z : ℤ} : IsExact z ↔ Binary64.IsShort z.natAbs ∧ |(z : ℚ)| < overflow := by
  rw [← Binary64.nearest_intCast_iff, IsExact, ofRat, ofInt]
  constructor
  · intro h
    split_ifs at h with hover
    have hround := finite.inj h
    rw [hround, abs_eq, not_le] at hover
    exact ⟨hround, hover⟩
  · rintro ⟨hround, hlt⟩
    rw [hround, abs_eq, if_neg hlt.not_ge, if_neg fun h => h.2.ne h.1]

/-- Integers of at most 53 binary digits are held. -/
lemma isExact_of_lt {z : ℤ} (h : z.natAbs < 2 ^ 53) : IsExact z := by
  refine isExact_iff.mpr ⟨Binary64.isShort_of_lt h, lt_of_lt_of_le ?_ two_pow_le_overflow⟩
  rw [← Int.cast_abs, Int.abs_eq_natAbs]
  exact_mod_cast h

/-- **The factors of an integer that is held are held.** -/
theorem IsExact.of_mul {k : ℤ} {s : ℕ} (h : IsExact (k * s)) (hs : 0 < s) : IsExact k := by
  obtain ⟨hshort, hlt⟩ := isExact_iff.mp h
  rw [Int.natAbs_mul, Int.natAbs_natCast] at hshort
  refine isExact_iff.mpr ⟨hshort.of_mul hs, lt_of_le_of_lt ?_ hlt⟩
  rw [Int.cast_mul, Int.cast_natCast, abs_mul, Nat.abs_cast]
  exact le_mul_of_one_le_right (abs_nonneg _) (by exact_mod_cast hs)

/-- The quotient of two fractions that do not vanish. -/
lemma finite_div_finite {a b : ℚ} (ha : a ≠ 0) (hb : b ≠ 0) : finite a / finite b = ofRat (a / b) :=
  (if_neg hb).trans (if_neg ha)

/-- A zero by a positive number. -/
lemma zero_div_finite {b : ℚ} (hb : 0 < b) : finite 0 / finite b = finite 0 := by
  have hsign : signedZero (isNegative (finite 0) != isNegative (finite b)) = finite 0 := by
    simp [isNegative, signedZero, hb.le]
  exact ((if_neg hb.ne').trans (if_pos rfl)).trans hsign

/-- A quotient that is a whole number. -/
lemma ofInt_div_ofNat {k : ℤ} {s : ℕ} (hs : 0 < s) (h : IsExact k) :
    ofInt (k * s) / ofNat s = ofInt k := by
  have hpos : (0 : ℚ) < s := by exact_mod_cast hs
  rw [ofNat_eq_finite, ofInt, Int.cast_mul, Int.cast_natCast]
  obtain rfl | hk := eq_or_ne k 0
  · rw [Int.cast_zero, zero_mul, zero_div_finite hpos, ofInt, Int.cast_zero]
  · have hk' : (k : ℚ) ≠ 0 := by exact_mod_cast hk
    rw [finite_div_finite (mul_ne_zero hk' hpos.ne') hpos.ne', mul_div_cancel_right₀ _ hpos.ne']
    exact h

/-- A difference of whole numbers. -/
lemma ofInt_sub_ofNat {z : ℤ} (q : ℕ) (h : IsExact z) : ofInt (z + q) - ofNat q = ofInt z := by
  change ofInt (z + q) + -ofNat q = ofInt z
  obtain rfl | hq := Nat.eq_zero_or_pos q
  · rw [Nat.cast_zero, add_zero]
    rfl
  · have hneg : -ofNat q = finite (-(q : ℚ)) := by
      rw [ofNat_eq_finite]
      exact if_neg (by positivity)
    have hsum : ((z + q : ℤ) : ℚ) + -(q : ℚ) = z := by
      push_cast
      ring
    rw [hneg]
    change ofRat (((z + q : ℤ) : ℚ) + -(q : ℚ)) = _
    rw [hsum]
    exact h

end Number

end MatrixSymbol
