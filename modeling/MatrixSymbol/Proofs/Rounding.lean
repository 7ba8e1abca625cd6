/-
Rounding keeps the order of fractions and does not touch half-integers.

Placing a grid of modules goes through fractions that are rounded after every step.  All that the
placement needs of the rounding is collected in `IsRounding`; rounding to binary64 has these
properties, and so has leaving fractions as they are.

* `Binary64.power_eq_zpow`, `Binary64.exponent_spec`: powers and the binary exponent of a fraction
  in the usual notation;
* `Binary64.roundEven_mono`, `Binary64.nearest_mono`: rounding keeps the order, within one unit and
  across a change of unit;
* `Binary64.nearest_mul_zpow`, `Binary64.nearest_half`: multiples of a power of two with a short
  factor are kept, half-integers below `2 ^ 52` among them;
* `IsRounding`, `isRounding_nearest`, `isRounding_id`: the order and the half-integers together;
* `IsFineRounding`, `isFineRounding_nearest`, `isFineRounding_id`: the same, and eighths are kept
  too;
* `Binary64.abs_nearest_sub_le`: fractions are moved by no more than a step of a grid that is kept;
  `IsCloseRounding`, `isCloseRounding_nearest`, `isCloseRounding_id`: moderate ones by very little;
* `Binary64.nearest_nearest`, `Binary64.nearest_add_one`: rounded fractions are kept, and adding one
  to a fraction takes its rounded value past the next whole number; `IsSteadyRounding`,
  `isSteadyRounding_nearest`: both together.
-/
import Mathlib.Algebra.Order.Field.Power
import Mathlib.Data.Rat.Floor
import Mathlib.Tactic
import MatrixSymbol.Number.Rounding

namespace MatrixSymbol

namespace Binary64

/-! ### Powers and exponents -/

/-- The power is the usual one. -/
lemma power_eq_zpow (b : ℕ) (z : ℤ) : power b z = (b : ℚ) ^ z := by
  cases z with
  | ofNat n => simp [power]
  | negSucc n => simp [power, zpow_negSucc]

/-- A power of two with a positive and a negative part of the exponent. -/
lemma zpow_eq_div (e : ℤ) : (2 : ℚ) ^ e = 2 ^ e.toNat / 2 ^ (-e).toNat := by
  rw [← zpow_natCast, ← zpow_natCast, ← zpow_sub₀ (by norm_num)]
  congr 1
  omega

/-- The quotient of two natural numbers lies within a factor of two of the power of two that their
binary lengths give. -/
lemma log2_bounds {n d : ℕ} (hn : 0 < n) (hd : 0 < d) :
    (2 : ℚ) ^ ((n.log2 : ℤ) - d.log2 - 1) ≤ n / d
      ∧ (n / d : ℚ) < 2 ^ ((n.log2 : ℤ) - d.log2 + 1) := by
  have hd0 : (0 : ℚ) < d := by exact_mod_cast hd
  have hnlow : (2 : ℚ) ^ n.log2 ≤ n := by exact_mod_cast Nat.log2_self_le hn.ne'
  have hnhigh : (n : ℚ) < 2 ^ (n.log2 + 1) := by exact_mod_cast Nat.lt_log2_self
  have hdlow : (2 : ℚ) ^ d.log2 ≤ d := by exact_mod_cast Nat.log2_self_le hd.ne'
  have hdhigh : (d : ℚ) < 2 ^ (d.log2 + 1) := by exact_mod_cast Nat.lt_log2_self
  constructor
  · rw [le_div_iff₀ hd0]
    calc (2 : ℚ) ^ ((n.log2 : ℤ) - d.log2 - 1) * d
        ≤ 2 ^ ((n.log2 : ℤ) - d.log2 - 1) * 2 ^ (d.log2 + 1) := by gcongr
      _ = 2 ^ n.log2 := by
          rw [← zpow_natCast, ← zpow_natCast, ← zpow_add₀ (by norm_num)]
          congr 1; push_cast; ring
      _ ≤ n := hnlow
  · rw [div_lt_iff₀ hd0]
    calc (n : ℚ) < 2 ^ (n.log2 + 1) := hnhigh
      _ = 2 ^ ((n.log2 : ℤ) - d.log2 + 1) * 2 ^ d.log2 := by
          rw [← zpow_natCast, ← zpow_natCast, ← zpow_add₀ (by norm_num)]
          congr 1; push_cast; ring
      _ ≤ 2 ^ ((n.log2 : ℤ) - d.log2 + 1) * d := by gcongr

/-- The exponent of a fraction is that of the greatest power of two below it. -/
lemma exponent_spec {n d : ℕ} (hn : 0 < n) (hd : 0 < d) :
    (2 : ℚ) ^ exponent n d ≤ n / d ∧ (n / d : ℚ) < 2 ^ (exponent n d + 1) := by
  have hd0 : (0 : ℚ) < d := by exact_mod_cast hd
  obtain ⟨hlow, hhigh⟩ := log2_bounds hn hd
  set e : ℤ := (n.log2 : ℤ) - d.log2 with he
  have htest : d * Nat.pow 2 e.toNat ≤ n * Nat.pow 2 (-e).toNat ↔ (2 : ℚ) ^ e ≤ n / d := by
    rw [zpow_eq_div, div_le_div_iff₀ (by positivity) hd0, mul_comm d]
    exact_mod_cast Iff.rfl
  by_cases h : d * Nat.pow 2 e.toNat ≤ n * Nat.pow 2 (-e).toNat
  · rw [exponent, ← he, if_pos h]
    exact ⟨htest.mp h, hhigh⟩
  · rw [exponent, ← he, if_neg h, sub_add_cancel]
    exact ⟨hlow, not_le.mp (mt htest.mpr h)⟩

/-- The exponent of a positive fraction. -/
def exponentOf (q : ℚ) : ℤ := exponent q.num.natAbs q.den

lemma unitExponent_eq (q : ℚ) : unitExponent q = max (exponentOf q - 52) (-1074) := rfl

lemma exponentOf_spec {q : ℚ} (hq : 0 < q) :
    (2 : ℚ) ^ exponentOf q ≤ q ∧ q < 2 ^ (exponentOf q + 1) := by
  have hnum : 0 < q.num := Rat.num_pos.mpr hq
  have h := exponent_spec (Int.natAbs_pos.mpr hnum.ne') q.den_pos
  have hquot : ((q.num.natAbs : ℕ) : ℚ) / q.den = q := by
    rw [Nat.cast_natAbs, abs_of_pos hnum, Rat.num_div_den]
  rw [hquot] at h
  exact h

/-- The exponent grows with the fraction. -/
lemma exponentOf_mono {a b : ℚ} (ha : 0 < a) (hab : a ≤ b) : exponentOf a ≤ exponentOf b := by
  have hlow := (exponentOf_spec ha).1
  have hhigh := (exponentOf_spec (ha.trans_le hab)).2
  have h : (2 : ℚ) ^ exponentOf a < 2 ^ (exponentOf b + 1) := hlow.trans_lt (hab.trans_lt hhigh)
  have := (zpow_lt_zpow_iff_right₀ (by norm_num : (1 : ℚ) < 2)).mp h
  omega

/-! ### Rounding to whole numbers -/

/-- A whole number is kept. -/
lemma roundEven_intCast (z : ℤ) : roundEven z = z := by
  simp [roundEven, Rat.floor_intCast]

/-- The result is one of the two neighbours. -/
lemma roundEven_bounds (q : ℚ) : q.floor ≤ roundEven q ∧ roundEven q ≤ q.floor + 1 := by
  unfold roundEven
  dsimp only
  split_ifs <;> omega

/-- Rounding to whole numbers keeps the order: between two neighbours because one half separates
those that go down from those that go up, and otherwise because the neighbours themselves are
ordered. -/
lemma roundEven_mono {a b : ℚ} (hab : a ≤ b) : roundEven a ≤ roundEven b := by
  have hfloor : a.floor ≤ b.floor := Rat.floor_monotone hab
  obtain hlt | heq := lt_or_eq_of_le hfloor
  · have ha := (roundEven_bounds a).2
    have hb := (roundEven_bounds b).1
    omega
  · unfold roundEven
    dsimp only
    rw [heq]
    split_ifs <;> first | omega | (exfalso; linarith)

/-- Even whole numbers pass through: the neighbours move with them, and so does the even one. -/
lemma roundEven_add_even (q : ℚ) (j : ℤ) :
    roundEven (q + ((2 * j : ℤ) : ℚ)) = roundEven q + 2 * j := by
  have hfloor : (q + ((2 * j : ℤ) : ℚ)).floor = q.floor + 2 * j := Int.floor_add_intCast q (2 * j)
  have hrest : q + ((2 * j : ℤ) : ℚ) - ((q.floor + 2 * j : ℤ) : ℚ) = q - q.floor := by
    push_cast
    ring
  unfold roundEven
  dsimp only
  rw [hfloor, hrest]
  split_ifs <;> omega

/-- The result is at most a half away, towards both sides. -/
lemma roundEven_error (q : ℚ) : q - 1 / 2 ≤ roundEven q ∧ (roundEven q : ℚ) ≤ q + 1 / 2 := by
  have hlow : (q.floor : ℚ) ≤ q := Int.floor_le q
  have hhigh : q < q.floor + 1 := Int.lt_floor_add_one q
  have hodd : q.floor % 2 = 0 ∨ q.floor % 2 = 1 := by omega
  unfold roundEven
  dsimp only
  split_ifs with hless hmore
  · constructor <;> linarith
  · push_cast
    constructor <;> linarith
  · obtain hodd | hodd := hodd <;> rw [hodd] <;> push_cast <;> constructor <;> linarith

/-! ### Rounding to binary64 -/

/-- The rounded value in powers of the usual notation. -/
lemma nearest_eq (q : ℚ) :
    nearest q = roundEven (q / 2 ^ unitExponent q) * 2 ^ unitExponent q := by
  simp only [nearest, power_eq_zpow, Nat.cast_ofNat]

/-- A multiple of a power of two, counted in a smaller one. -/
lemma mul_zpow_div {k : ℤ} {u e : ℤ} (hue : u ≤ e) :
    (k * 2 ^ e / 2 ^ u : ℚ) = ((k * 2 ^ (e - u).toNat : ℤ) : ℚ) := by
  have hsplit : (2 : ℚ) ^ e = 2 ^ (e - u).toNat * 2 ^ u := by
    rw [← zpow_natCast, ← zpow_add₀ (by norm_num)]
    congr 1
    omega
  have hu : (2 : ℚ) ^ u ≠ 0 := by positivity
  rw [hsplit, ← mul_assoc, mul_div_cancel_right₀ _ hu]
  push_cast
  rfl

/-- An upper bound that is a multiple of the unit also bounds the rounded value. -/
lemma nearest_le {q : ℚ} {k e : ℤ} (he : unitExponent q ≤ e) (h : q ≤ k * 2 ^ e) :
    nearest q ≤ k * 2 ^ e := by
  have hu : (0 : ℚ) < 2 ^ unitExponent q := by positivity
  have hround : roundEven (q / 2 ^ unitExponent q) ≤ k * 2 ^ (e - unitExponent q).toNat := by
    rw [← roundEven_intCast (k * _), ← mul_zpow_div he]
    exact roundEven_mono (div_le_div_of_nonneg_right h hu.le)
  rw [nearest_eq, ← le_div_iff₀ hu, mul_zpow_div he]
  exact_mod_cast hround

/-- A lower bound that is a multiple of the unit also bounds the rounded value. -/
lemma le_nearest {q : ℚ} {k e : ℤ} (he : unitExponent q ≤ e) (h : k * 2 ^ e ≤ q) :
    k * 2 ^ e ≤ nearest q := by
  have hu : (0 : ℚ) < 2 ^ unitExponent q := by positivity
  have hround : k * 2 ^ (e - unitExponent q).toNat ≤ roundEven (q / 2 ^ unitExponent q) := by
    rw [← roundEven_intCast (k * _), ← mul_zpow_div he]
    exact roundEven_mono (div_le_div_of_nonneg_right h hu.le)
  rw [nearest_eq, ← div_le_iff₀ hu, mul_zpow_div he]
  exact_mod_cast hround

/-- A multiple of the unit is kept. -/
lemma nearest_of_multiple {q : ℚ} {k e : ℤ} (he : unitExponent q ≤ e) (h : q = k * 2 ^ e) :
    nearest q = q := by
  apply le_antisymm
  · conv_rhs => rw [h]
    exact nearest_le he h.le
  · conv_lhs => rw [h]
    exact le_nearest he h.ge

@[simp] lemma nearest_zero : nearest 0 = 0 := by
  rw [nearest_eq, zero_div, ← Int.cast_zero, roundEven_intCast]
  simp

/-- **Rounding keeps the order** of nonnegative fractions.  Where both are rounded in the same unit
this is the order of whole numbers.  Otherwise the power of two at which the greater one's unit
begins lies between them, and it is a multiple of both units. -/
theorem nearest_mono {a b : ℚ} (ha : 0 ≤ a) (hab : a ≤ b) : nearest a ≤ nearest b := by
  obtain rfl | ha := ha.eq_or_lt
  · rw [nearest_zero, nearest_eq]
    have hu : (0 : ℚ) < 2 ^ unitExponent b := by positivity
    have hround : (0 : ℤ) ≤ roundEven (b / 2 ^ unitExponent b) := by
      rw [← roundEven_intCast 0, Int.cast_zero]
      exact roundEven_mono (by positivity)
    have : (0 : ℚ) ≤ roundEven (b / 2 ^ unitExponent b) := by exact_mod_cast hround
    positivity
  have hexp := exponentOf_mono ha hab
  have hlow := (exponentOf_spec (ha.trans_le hab)).1
  have hhigh := (exponentOf_spec ha).2
  by_cases hunit : unitExponent a = unitExponent b
  · have hu : (0 : ℚ) < 2 ^ unitExponent b := by positivity
    have hround := roundEven_mono (div_le_div_of_nonneg_right hab hu.le)
    rw [nearest_eq, nearest_eq, hunit]
    exact mul_le_mul_of_nonneg_right (by exact_mod_cast hround) hu.le
  · rw [unitExponent_eq, unitExponent_eq] at hunit
    have hpow : (2 : ℚ) ^ (exponentOf a + 1) ≤ 2 ^ exponentOf b :=
      zpow_le_zpow_right₀ (by norm_num) (by omega)
    calc nearest a ≤ (1 : ℤ) * 2 ^ exponentOf b :=
          nearest_le (by rw [unitExponent_eq]; omega) (by push_cast; linarith)
      _ ≤ nearest b := le_nearest (by rw [unitExponent_eq]; omega) (by push_cast; linarith)

/-- **Multiples of a power of two with a short factor are kept**: their unit is at most that
power. -/
theorem nearest_mul_zpow {n : ℕ} (hn : n < 2 ^ 53) {u : ℤ} (hu : -1074 ≤ u) :
    nearest (n * 2 ^ u) = n * 2 ^ u := by
  obtain rfl | hpos := Nat.eq_zero_or_pos n
  · rw [Nat.cast_zero, zero_mul, nearest_zero]
  have hq : (0 : ℚ) < n * 2 ^ u := by positivity
  have hlt : (n * 2 ^ u : ℚ) < 2 ^ (53 + u) := by
    rw [zpow_add₀ two_ne_zero]
    gcongr
    exact_mod_cast hn
  have hexp : exponentOf (n * 2 ^ u) < 53 + u :=
    (zpow_lt_zpow_iff_right₀ (by norm_num : (1 : ℚ) < 2)).mp ((exponentOf_spec hq).1.trans_lt hlt)
  exact nearest_of_multiple (k := n) (e := u) (by rw [unitExponent_eq]; omega) rfl

/-- **Fractions with a short numerator over a power of two are kept.** -/
theorem nearest_div_two_pow {n k : ℕ} (hn : n < 2 ^ 53) (hk : k ≤ 1074) :
    nearest (n / 2 ^ k) = n / 2 ^ k := by
  have h := nearest_mul_zpow hn (u := -k) (by omega)
  rwa [zpow_neg, zpow_natCast, ← div_eq_mul_inv] at h

/-- Half-integers are kept, as long as they are below `2 ^ 52`. -/
lemma nearest_half {n : ℕ} (hn : n < 2 ^ 53) : nearest (n / 2) = n / 2 := by
  have h := nearest_div_two_pow (k := 1) hn (by norm_num)
  rwa [pow_one] at h

/-- **Rounding moves a fraction by no more than a step of a grid that it keeps**, since it keeps the
order of the fraction and its two neighbours on the grid. -/
theorem abs_nearest_sub_le {q : ℚ} {k : ℕ} (hq : 0 ≤ q) (hk : k ≤ 1074)
    (hlt : q * 2 ^ k + 1 < 2 ^ 53) : |nearest q - q| ≤ 1 / 2 ^ k := by
  have hpow : (0 : ℚ) < 2 ^ k := by positivity
  obtain ⟨n, hn⟩ := Int.eq_ofNat_of_zero_le
    (Int.floor_nonneg.mpr (show 0 ≤ q * 2 ^ k by positivity))
  have hlow : (n : ℚ) ≤ q * 2 ^ k := by
    have h := Int.floor_le (q * 2 ^ k)
    rwa [hn] at h
  have hhigh : q * 2 ^ k < n + 1 := by
    have h := Int.lt_floor_add_one (q * 2 ^ k)
    rwa [hn] at h
  have hsize : n + 1 < 2 ^ 53 := by
    have h : ((n + 1 : ℕ) : ℚ) < ((2 ^ 53 : ℕ) : ℚ) := by push_cast; linarith
    exact_mod_cast h
  have hbelow : (n / 2 ^ k : ℚ) ≤ q := (div_le_iff₀ hpow).mpr hlow
  have habove : q ≤ ((n + 1 : ℕ) / 2 ^ k : ℚ) := by
    rw [le_div_iff₀ hpow]
    push_cast
    exact hhigh.le
  have hround := nearest_mono (by positivity) hbelow
  have hround' := nearest_mono hq habove
  rw [nearest_div_two_pow (by omega) hk] at hround
  rw [nearest_div_two_pow hsize hk, Nat.cast_succ, add_div] at hround'
  rw [Nat.cast_succ, add_div] at habove
  rw [abs_sub_le_iff]
  constructor <;> linarith

/-- A rounded fraction is a multiple of its unit with at most 53 binary digits, or the power of two
behind these. -/
lemma exists_nearest_eq {q : ℚ} (hq : 0 < q) :
    ∃ n : ℕ, n ≤ 2 ^ 53 ∧ nearest q = n * 2 ^ unitExponent q := by
  have hu : (0 : ℚ) < 2 ^ unitExponent q := by positivity
  have hsize : q / 2 ^ unitExponent q ≤ ((2 ^ 53 : ℤ) : ℚ) := by
    rw [div_le_iff₀ hu]
    calc q ≤ 2 ^ (exponentOf q + 1) := (exponentOf_spec hq).2.le
      _ ≤ 2 ^ (53 + unitExponent q) :=
          zpow_le_zpow_right₀ (by norm_num) (by rw [unitExponent_eq]; omega)
      _ = ((2 ^ 53 : ℤ) : ℚ) * 2 ^ unitExponent q := by
          rw [zpow_add₀ two_ne_zero]
          norm_num
  have hlow : 0 ≤ roundEven (q / 2 ^ unitExponent q) := by
    rw [← roundEven_intCast 0, Int.cast_zero]
    exact roundEven_mono (by positivity)
  have hhigh : roundEven (q / 2 ^ unitExponent q) ≤ 2 ^ 53 :=
    (roundEven_mono hsize).trans_eq (roundEven_intCast _)
  obtain ⟨n, hn⟩ := Int.eq_ofNat_of_zero_le hlow
  refine ⟨n, by omega, ?_⟩
  rw [nearest_eq q, hn, Int.cast_natCast]

/-- **A rounded fraction is kept.** -/
theorem nearest_nearest {q : ℚ} (hq : 0 ≤ q) : nearest (nearest q) = nearest q := by
  obtain rfl | hq := hq.eq_or_lt
  · rw [nearest_zero, nearest_zero]
  have hunit : -1074 ≤ unitExponent q := by rw [unitExponent_eq]; omega
  obtain ⟨n, hn, hround⟩ := exists_nearest_eq hq
  rw [hround]
  obtain hlt | rfl := lt_or_eq_of_le hn
  · exact nearest_mul_zpow hlt hunit
  · have h := nearest_mul_zpow (n := 1) (by norm_num) (u := 53 + unitExponent q) (by omega)
    rw [zpow_add₀ two_ne_zero] at h
    norm_num at h ⊢
    exact h

/-- Whole numbers are multiples of a unit of at most one. -/
lemma exists_eq_mul_zpow (z : ℤ) {u : ℤ} (hu : u ≤ 0) : ∃ k : ℤ, (z : ℚ) = k * 2 ^ u := by
  refine ⟨z * 2 ^ (0 - u).toNat, ?_⟩
  rw [← mul_zpow_div hu, zpow_zero, mul_one, div_mul_cancel₀ _ (by positivity)]

/-- In units of which one is an even number, adding one goes through the rounding. -/
lemma nearest_add_one_of_eq {q : ℚ} (hunit : unitExponent (q + 1) = unitExponent q)
    (hsmall : unitExponent q ≤ -1) : nearest (q + 1) = nearest q + 1 := by
  have hu : (2 : ℚ) ^ unitExponent q ≠ 0 := by positivity
  obtain ⟨j, hj⟩ := exists_eq_mul_zpow 1 (u := unitExponent q + 1) (by omega)
  have hone : (1 : ℚ) = (2 * j : ℤ) * 2 ^ unitExponent q := by
    rw [Int.cast_one, zpow_add₀ two_ne_zero, zpow_one] at hj
    rw [hj]
    push_cast
    ring
  have hquot : (q + 1) / 2 ^ unitExponent q = q / 2 ^ unitExponent q + ((2 * j : ℤ) : ℚ) := by
    rw [add_div, hone, mul_div_cancel_right₀ _ hu]
  rw [nearest_eq, nearest_eq, hunit, hquot, roundEven_add_even, Int.cast_add, add_mul, ← hone]

/-- What is less than half a unit below a multiple of it is rounded up to this multiple, or
beyond. -/
lemma le_nearest_of_lt {q : ℚ} {k : ℤ} (h : (k - 1 / 2) * 2 ^ unitExponent q < q) :
    k * 2 ^ unitExponent q ≤ nearest q := by
  have hu : (0 : ℚ) < 2 ^ unitExponent q := by positivity
  have herror := (roundEven_error (q / 2 ^ unitExponent q)).1
  rw [← lt_div_iff₀ hu] at h
  have hround : ((k - 1 : ℤ) : ℚ) < roundEven (q / 2 ^ unitExponent q) := by
    push_cast
    linarith
  rw [nearest_eq]
  exact mul_le_mul_of_nonneg_right
    (by exact_mod_cast Int.le_of_sub_one_lt (by exact_mod_cast hround)) hu.le

/-- **Adding one does not lose a whole number that rounding has reached.**  A fraction that is
rounded up to a whole number is at most half a unit below it.  One later, the unit is the same, and
then rounding goes the same way, because one is an even number of units; or it is at least twice as
large, and then what is missing is at most a quarter of it. -/
theorem nearest_add_one {n : ℕ} {q : ℚ} (hn : n + 1 < 2 ^ 52) (hq : 0 ≤ q) (h : n ≤ nearest q) :
    n + 1 ≤ nearest (q + 1) := by
  by_cases hnq : n ≤ q
  · have hkept := nearest_mul_zpow (n := n + 1) (by omega) (u := 0) (by norm_num)
    rw [zpow_zero, mul_one, Nat.cast_succ] at hkept
    rw [← hkept]
    exact nearest_mono (by positivity) (by linarith)
  -- from here on the fraction has been rounded up, and what counts is how its unit changes
  have hqn : q < n := not_le.mp hnq
  have hpos : 0 < q := by
    refine hq.lt_of_ne fun hzero => ?_
    rw [← hzero, nearest_zero] at h
    linarith
  have hunits : unitExponent q ≤ unitExponent (q + 1) := by
    have hexp := exponentOf_mono hpos (show q ≤ q + 1 by linarith)
    rw [unitExponent_eq, unitExponent_eq]
    omega
  have hsmall : unitExponent (q + 1) ≤ -1 := by
    have hlt : q + 1 < 2 ^ (52 : ℤ) := by
      have hsucc : ((n + 1 : ℕ) : ℚ) < ((2 ^ 52 : ℕ) : ℚ) := by exact_mod_cast hn
      push_cast at hsucc
      rw [zpow_ofNat]
      linarith
    have hexp := (zpow_lt_zpow_iff_right₀ (by norm_num : (1 : ℚ) < 2)).mp
      ((exponentOf_spec (show 0 < q + 1 by linarith)).1.trans_lt hlt)
    rw [unitExponent_eq]
    omega
  obtain heq | hlt := hunits.eq_or_lt
  · rw [nearest_add_one_of_eq heq.symm (by omega)]
    linarith
  · have hhalf : (2 : ℚ) * 2 ^ unitExponent q ≤ 2 ^ unitExponent (q + 1) := by
      rw [← zpow_one_add₀ two_ne_zero]
      exact zpow_le_zpow_right₀ (by norm_num) (by omega)
    have hu : (0 : ℚ) < 2 ^ unitExponent q := by positivity
    have hmiss : n - 2 ^ unitExponent q / 2 ≤ q := by
      have herror := mul_le_mul_of_nonneg_right (roundEven_error (q / 2 ^ unitExponent q)).2 hu.le
      rw [← nearest_eq, add_mul, div_mul_cancel₀ _ hu.ne'] at herror
      linarith
    obtain ⟨k, hk⟩ := exists_eq_mul_zpow (n + 1) (u := unitExponent (q + 1)) (by omega)
    push_cast at hk
    rw [hk]
    refine le_nearest_of_lt ?_
    rw [sub_mul, ← hk]
    linarith

end Binary64

/-! ### What the geometry needs of a rounding -/

/-- A rounding keeps the order of nonnegative fractions, and it keeps the halves of whole numbers
that are far larger than the sides of any bitmap. -/
structure IsRounding (round : ℚ → ℚ) : Prop where
  mono : ∀ {a b : ℚ}, 0 ≤ a → a ≤ b → round a ≤ round b
  half : ∀ {n : ℕ}, n < 2 ^ 53 → round (n / 2) = n / 2

/-- Rounding to binary64 is a rounding. -/
theorem isRounding_nearest : IsRounding Binary64.nearest :=
  ⟨Binary64.nearest_mono, Binary64.nearest_half⟩

/-- Not to round is a rounding. -/
theorem isRounding_id : IsRounding id := ⟨fun _ h => h, fun _ => rfl⟩

namespace IsRounding

variable {round : ℚ → ℚ} (hr : IsRounding round)
include hr

/-- Whole numbers are kept. -/
lemma natCast {n : ℕ} (hn : n < 2 ^ 52) : round n = n := by
  have h := hr.half (n := 2 * n) (by omega)
  rwa [Nat.cast_mul, Nat.cast_ofNat, mul_div_cancel_left₀ _ two_ne_zero] at h

lemma zero : round 0 = 0 := by
  have h := hr.natCast (n := 0) (by norm_num)
  rwa [Nat.cast_zero] at h

lemma nonneg {q : ℚ} (hq : 0 ≤ q) : 0 ≤ round q := by
  rw [← hr.zero]
  exact hr.mono le_rfl hq

/-- A half-integer below a fraction is below the rounded fraction. -/
lemma half_le {n : ℕ} {q : ℚ} (hn : n < 2 ^ 53) (h : n / 2 ≤ q) : n / 2 ≤ round q := by
  rw [← hr.half hn]
  exact hr.mono (by positivity) h

end IsRounding

/-! ### Fine roundings -/

/-- A fine rounding keeps eighths too, and so carries no fraction across more than an eighth. -/
structure IsFineRounding (round : ℚ → ℚ) : Prop extends IsRounding round where
  eighth : ∀ {n : ℕ}, n < 2 ^ 53 → round (n / 8) = n / 8

/-- Rounding to binary64 is fine. -/
theorem isFineRounding_nearest : IsFineRounding Binary64.nearest where
  toIsRounding := isRounding_nearest
  eighth := fun hn => by
    have h := Binary64.nearest_div_two_pow (k := 3) hn (by norm_num)
    norm_num at h
    exact h

/-- So is not to round. -/
theorem isFineRounding_id : IsFineRounding id := ⟨isRounding_id, fun _ => rfl⟩

namespace IsFineRounding

variable {round : ℚ → ℚ} (hr : IsFineRounding round)
include hr

/-- An eighth above a fraction is above the rounded fraction. -/
lemma le_eighth {n : ℕ} {q : ℚ} (hn : n < 2 ^ 53) (hq : 0 ≤ q) (h : q ≤ n / 8) :
    round q ≤ n / 8 := by
  rw [← hr.eighth hn]
  exact hr.mono hq h

end IsFineRounding

/-! ### Close roundings -/

/-- A close rounding moves no fraction of moderate size by more than a thirtieth power of a half. -/
structure IsCloseRounding (round : ℚ → ℚ) : Prop extends IsFineRounding round where
  close : ∀ {q : ℚ}, 0 ≤ q → q ≤ 2 ^ 20 → |round q - q| ≤ 1 / 2 ^ 30

/-- Rounding to binary64 is close. -/
theorem isCloseRounding_nearest : IsCloseRounding Binary64.nearest where
  toIsFineRounding := isFineRounding_nearest
  close := fun hq hle => Binary64.abs_nearest_sub_le hq (by norm_num) (by linarith)

/-- So is not to round. -/
theorem isCloseRounding_id : IsCloseRounding id where
  toIsFineRounding := isFineRounding_id
  close := fun _ _ => by rw [id, sub_self, abs_zero]; positivity

/-! ### Steady roundings -/

/-- A steady rounding keeps what it has rounded, and goes on by at least one where fractions do, as
far as whole numbers tell. -/
structure IsSteadyRounding (round : ℚ → ℚ) : Prop extends IsRounding round where
  idem : ∀ {q : ℚ}, 0 ≤ q → round (round q) = round q
  add_one : ∀ {n : ℕ} {q : ℚ}, n + 1 < 2 ^ 52 → 0 ≤ q → n ≤ round q → n + 1 ≤ round (q + 1)

/-- Rounding to binary64 is steady. -/
theorem isSteadyRounding_nearest : IsSteadyRounding Binary64.nearest where
  toIsRounding := isRounding_nearest
  idem := Binary64.nearest_nearest
  add_one := Binary64.nearest_add_one

end MatrixSymbol
