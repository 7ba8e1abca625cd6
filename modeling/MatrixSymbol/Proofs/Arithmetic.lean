/-
Natural numbers in binary64 arithmetic.

Sums and products of natural numbers are exact as long as they have at most 53 binary digits, and
stay above that afterwards, so that a length computed from natural numbers is never mistaken for a
shorter one.

* `Number.ofRat_natCast`: natural numbers of at most 53 binary digits are kept;
* `Number.AtLeast`: a lower bound of a number, infinity included;
* `Number.Carries`: a number holds a natural number, exactly if that is below `2 ^ 53`;
* `Number.Carries.add`, `Number.Carries.mul`: sums and products of such numbers;
* `Number.ofNat_add`, `Number.ofNat_mul`: those that are exact.
-/
import MatrixSymbol.Proofs.Rounding
import MatrixSymbol.Proofs.Store

namespace MatrixSymbol

namespace Number

/-! ### Rounding whole numbers -/

lemma ofNat_eq_finite (n : ℕ) : ofNat n = finite (n : ℚ) := by
  rw [ofNat, Int.cast_natCast]

lemma nearest_natCast {n : ℕ} (hn : n < 2 ^ 53) : Binary64.nearest n = n := by
  have h := Binary64.nearest_mul_zpow hn (u := 0) (by norm_num)
  rwa [zpow_zero, mul_one] at h

lemma two_pow_le_overflow : (2 : ℚ) ^ 53 ≤ overflow := by
  rw [overflow, Binary64.power_eq_zpow, ← zpow_natCast]
  exact zpow_le_zpow_right₀ (by norm_num) (by norm_num)

/-- What a nonnegative fraction becomes. -/
lemma ofRat_of_nonneg {q : ℚ} (hq : 0 ≤ q) :
    ofRat q = if overflow ≤ Binary64.nearest q then infinite false
      else finite (Binary64.nearest q) := by
  have hround : 0 ≤ Binary64.nearest q := IsRounding.nonneg isRounding_nearest hq
  have hsign : ¬ q < 0 := hq.not_gt
  simp only [ofRat, Rat.abs_of_nonneg hround, hsign, and_false, if_false, decide_false]

/-- **A natural number of at most 53 binary digits is kept.** -/
theorem ofRat_natCast {n : ℕ} (hn : n < 2 ^ 53) : ofRat n = ofNat n := by
  have hlt : (n : ℚ) < overflow :=
    lt_of_lt_of_le (by exact_mod_cast hn) two_pow_le_overflow
  rw [ofRat_of_nonneg n.cast_nonneg, nearest_natCast hn, if_neg hlt.not_ge, ofNat_eq_finite]

/-! ### Lower bounds -/

/-- A number is at least a natural number. -/
inductive AtLeast (n : ℕ) : Number → Prop where
  | finite {q : ℚ} (h : n ≤ q) : AtLeast n (finite q)
  | infinite : AtLeast n (infinite false)

/-- Rounding does not fall below the first number with more than 53 binary digits. -/
lemma atLeast_ofRat {q : ℚ} (h : (2 : ℚ) ^ 53 ≤ q) : AtLeast (2 ^ 53) (ofRat q) := by
  have hpow := Binary64.nearest_mul_zpow (n := 1) (by norm_num) (u := 53) (by norm_num)
  have hround := Binary64.nearest_mono (by positivity) h
  rw [ofRat_of_nonneg (le_trans (by positivity) h)]
  split_ifs
  · exact .infinite
  · refine .finite (le_trans ?_ hround)
    norm_num at hpow ⊢
    exact hpow.ge

variable {x y : Number} {m n : ℕ}

lemma AtLeast.add (hx : AtLeast m x) (hy : AtLeast n y) (h : 2 ^ 53 ≤ m + n) :
    AtLeast (2 ^ 53) (x + y) := by
  cases hx with
  | infinite =>
    cases hy with
    | infinite => exact .infinite
    | finite hb => exact .infinite
  | finite ha =>
    cases hy with
    | infinite => exact .infinite
    | finite hb =>
      have hsum : ((2 ^ 53 : ℕ) : ℚ) ≤ ((m + n : ℕ) : ℚ) := by exact_mod_cast h
      push_cast at hsum
      exact atLeast_ofRat (by linarith)

/-- The product of two fractions that does not vanish. -/
lemma finite_mul_finite {a b : ℚ} (h : a * b ≠ 0) : finite a * finite b = ofRat (a * b) :=
  if_neg h

/-- An infinity times a positive number. -/
lemma infinite_mul_finite {b : ℚ} (hb : 0 < b) :
    infinite false * finite b = infinite false ∧ finite b * infinite false = infinite false := by
  have hzero : b ≠ 0 := hb.ne'
  have hsign : ¬ b < 0 := hb.not_gt
  constructor <;> simp [HMul.hMul, Mul.mul, mul, toRat?, isNaN, isZero, isNegative, hzero, hsign]

lemma AtLeast.mul (hx : AtLeast m x) (hy : AtLeast n y) (hm : 0 < m) (hn : 0 < n)
    (h : 2 ^ 53 ≤ m * n) : AtLeast (2 ^ 53) (x * y) := by
  cases hx with
  | infinite =>
    cases hy with
    | infinite => exact .infinite
    | finite hb =>
      rw [(infinite_mul_finite (lt_of_lt_of_le (by exact_mod_cast hn) hb)).1]
      exact .infinite
  | finite ha =>
    have hpos : (0 : ℚ) < m := by exact_mod_cast hm
    cases hy with
    | infinite =>
      rw [(infinite_mul_finite (hpos.trans_le ha)).2]
      exact .infinite
    | finite hb =>
      have hprod : ((2 ^ 53 : ℕ) : ℚ) ≤ ((m * n : ℕ) : ℚ) := by exact_mod_cast h
      have hle := mul_le_mul ha hb n.cast_nonneg (hpos.le.trans ha)
      push_cast at hprod
      rw [finite_mul_finite (by linarith [show (0 : ℚ) < 2 ^ 53 by positivity] : _ ≠ (0 : ℚ))]
      exact atLeast_ofRat (hprod.trans hle)

/-! ### Natural numbers -/

/-- A number holds a natural number: it is that number if it has at most 53 binary digits, and not
below any other such number if not. -/
structure Carries (x : Number) (n : ℕ) : Prop where
  eq_of_lt : n < 2 ^ 53 → x = ofNat n
  atLeast_of_le : 2 ^ 53 ≤ n → AtLeast (2 ^ 53) x

/-- A natural number is held by its own number, however many digits it has. -/
lemma carries_ofNat (n : ℕ) : Carries (ofNat n) n where
  eq_of_lt _ := rfl
  atLeast_of_le h := by
    rw [ofNat_eq_finite]
    exact .finite (by exact_mod_cast h)

namespace Carries

/-- What a number holds bounds it, up to the digits it can have. -/
lemma atLeast (h : Carries x n) : AtLeast (Min.min n (2 ^ 53)) x := by
  obtain hlt | hle := lt_or_ge n (2 ^ 53)
  · rw [min_eq_left hlt.le, h.eq_of_lt hlt, ofNat_eq_finite]
    exact .finite le_rfl
  · rw [min_eq_right hle]
    exact h.atLeast_of_le hle

/-- **A sum of natural numbers** is exact, or too long to be. -/
theorem add (hx : Carries x m) (hy : Carries y n) : Carries (x + y) (m + n) where
  eq_of_lt h := by
    rw [hx.eq_of_lt (by omega), hy.eq_of_lt (by omega), ← ofRat_natCast h, Nat.cast_add,
      ofNat_eq_finite, ofNat_eq_finite]
    rfl
  atLeast_of_le h := hx.atLeast.add hy.atLeast (by omega)

/-- **A product of positive natural numbers** is exact, or too long to be. -/
theorem mul (hx : Carries x m) (hy : Carries y n) (hm : 0 < m) (hn : 0 < n) :
    Carries (x * y) (m * n) where
  eq_of_lt h := by
    have hm' : m < 2 ^ 53 := lt_of_le_of_lt (Nat.le_mul_of_pos_right m hn) h
    have hn' : n < 2 ^ 53 := lt_of_le_of_lt (Nat.le_mul_of_pos_left n hm) h
    have hne : (m : ℚ) * n ≠ 0 := by positivity
    rw [hx.eq_of_lt hm', hy.eq_of_lt hn', ← ofRat_natCast h, Nat.cast_mul, ofNat_eq_finite,
      ofNat_eq_finite, finite_mul_finite hne]
  atLeast_of_le h := by
    refine hx.atLeast.mul hy.atLeast (by omega) (by omega) ?_
    obtain hm' | hm' := le_total m (2 ^ 53)
    · obtain hn' | hn' := le_total n (2 ^ 53)
      · rwa [min_eq_left hm', min_eq_left hn']
      · rw [min_eq_right hn']
        exact Nat.le_mul_of_pos_left _ (by omega)
    · rw [min_eq_right hm']
      exact Nat.le_mul_of_pos_right _ (by omega)

/-- A natural number that is read back is the one that is held, or both are long. -/
lemma eq_or_le_of_toNat? {k : ℕ} (h : Carries x n) (hk : x.toNat? = some k) :
    k = n ∨ 2 ^ 53 ≤ n ∧ 2 ^ 53 ≤ k := by
  obtain hlt | hle := lt_or_ge n (2 ^ 53)
  · rw [h.eq_of_lt hlt, toNat?_ofNat] at hk
    exact .inl (Option.some.inj hk).symm
  · rw [toNat?_eq_some_iff] at hk
    cases h.atLeast_of_le hle with
    | infinite => cases hk
    | finite hq =>
      obtain rfl := Option.some.inj hk
      exact .inr ⟨hle, by exact_mod_cast hq⟩

end Carries

/-- Zero times a natural number, and the other way round. -/
lemma ofNat_mul_of_eq_zero (h : m * n = 0) : ofNat m * ofNat n = ofNat 0 := by
  have hm : ¬ (m : ℚ) < 0 := m.cast_nonneg.not_gt
  have hn : ¬ (n : ℚ) < 0 := n.cast_nonneg.not_gt
  have hzero : (m : ℚ) * n = 0 := by exact_mod_cast h
  have hsign : signedZero (isNegative (finite (m : ℚ)) != isNegative (finite (n : ℚ)))
      = ofNat 0 := by
    simp [isNegative, hm, hn, signedZero, ofNat]
  rw [← hsign, ofNat_eq_finite, ofNat_eq_finite]
  exact if_pos hzero

/-- A product of natural numbers, one of which may vanish. -/
lemma carries_ofNat_mul (m n : ℕ) : Carries (ofNat m * ofNat n) (m * n) := by
  obtain h | h := Nat.eq_zero_or_pos (m * n)
  · rw [ofNat_mul_of_eq_zero h, h]
    exact carries_ofNat 0
  · exact (carries_ofNat m).mul (carries_ofNat n) (Nat.pos_of_mul_pos_right h)
      (Nat.pos_of_mul_pos_left h)

lemma ofNat_add (h : m + n < 2 ^ 53) : ofNat m + ofNat n = ofNat (m + n) :=
  ((carries_ofNat m).add (carries_ofNat n)).eq_of_lt h

lemma ofNat_mul (h : m * n < 2 ^ 53) : ofNat m * ofNat n = ofNat (m * n) :=
  (carries_ofNat_mul m n).eq_of_lt h

end Number

end MatrixSymbol
