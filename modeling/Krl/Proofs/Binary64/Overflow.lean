import Krl.Token.Literal
import Mathlib.Algebra.Order.Field.Power
import Mathlib.Tactic.FieldSimp
import Mathlib.Tactic.NormNum
import Mathlib.Tactic.Positivity

/-!
# Where doubles overflow

The double nearest to a fraction is infinite from the middle between the largest double and
`2 ^ 1024` on. A literal may have any number of digits, so there are literals for infinity.
-/

namespace Krl.Binary64

section Scale

variable {dividend divisor : Nat}

theorem two_zpow_log2_le (positive : 0 < dividend) : (2 : ℚ) ^ (dividend.log2 : ℤ) ≤ dividend := by
  rw [zpow_natCast]
  exact_mod_cast Nat.log2_self_le (Nat.ne_of_gt positive)

theorem lt_two_zpow_log2 (value : Nat) : (value : ℚ) < 2 ^ ((value.log2 : ℤ) + 1) := by
  have below : value < 2 ^ (value.log2 + 1) := Nat.lt_log2_self
  exact_mod_cast below

/-- A fraction is compared with a power of two in natural numbers. -/
theorem two_zpow_le_iff (positive : 0 < divisor) (exponent : ℤ) :
    (if 0 ≤ exponent then divisor * Nat.pow 2 exponent.toNat ≤ dividend
      else divisor ≤ dividend * Nat.pow 2 (-exponent).toNat) ↔
        (2 : ℚ) ^ exponent ≤ dividend / divisor := by
  have above : (0 : ℚ) < divisor := Nat.cast_pos.mpr positive
  split
  next nonnegative =>
    obtain ⟨power, rfl⟩ := Int.eq_ofNat_of_zero_le nonnegative
    rw [le_div_iff₀ above, zpow_natCast, mul_comm, Int.toNat_natCast]
    exact_mod_cast Iff.rfl
  next negative =>
    obtain ⟨power, same⟩ := Int.eq_ofNat_of_zero_le (show 0 ≤ -exponent by omega)
    obtain rfl : exponent = -(power : ℤ) := by omega
    rw [neg_neg, zpow_neg, zpow_natCast, inv_eq_one_div, div_le_div_iff₀ (by positivity) above,
      one_mul, Int.toNat_natCast]
    exact_mod_cast Iff.rfl

/-- The highest power of two that is at most the fraction is found. -/
theorem le_floorLog2_iff (positive : 0 < dividend) (positive' : 0 < divisor) (exponent : ℤ) :
    exponent ≤ floorLog2 dividend divisor ↔ (2 : ℚ) ^ exponent ≤ dividend / divisor := by
  have above : (0 : ℚ) < divisor := Nat.cast_pos.mpr positive'
  have increasing {lower higher : ℤ} (le : lower ≤ higher) : (2 : ℚ) ^ lower ≤ 2 ^ higher :=
    zpow_le_zpow_right₀ one_le_two le
  let guess : ℤ := (dividend.log2 : ℤ) - divisor.log2
  have low : (2 : ℚ) ^ (guess - 1) ≤ dividend / divisor :=
    calc (2 : ℚ) ^ (guess - 1)
        = 2 ^ (dividend.log2 : ℤ) / 2 ^ ((divisor.log2 : ℤ) + 1) := by
          rw [← zpow_sub₀ two_ne_zero, sub_sub]
      _ ≤ dividend / divisor :=
          div_le_div₀ (Nat.cast_nonneg _) (two_zpow_log2_le positive) above
            (lt_two_zpow_log2 divisor).le
  have high : (dividend / divisor : ℚ) < 2 ^ (guess + 1) :=
    calc (dividend / divisor : ℚ)
        < 2 ^ ((dividend.log2 : ℤ) + 1) / 2 ^ (divisor.log2 : ℤ) :=
          div_lt_div₀ (lt_two_zpow_log2 dividend) (two_zpow_log2_le positive') (by positivity)
            (by positivity)
      _ = 2 ^ (guess + 1) := by rw [← zpow_sub₀ two_ne_zero, sub_add_eq_add_sub]
  have same : floorLog2 dividend divisor =
      if (if 0 ≤ guess then divisor * Nat.pow 2 guess.toNat ≤ dividend
        else divisor ≤ dividend * Nat.pow 2 (-guess).toNat) then guess else guess - 1 := rfl
  rw [same]
  by_cases fits : (2 : ℚ) ^ guess ≤ dividend / divisor
  · rw [if_pos ((two_zpow_le_iff positive' guess).mpr fits)]
    constructor
    · exact fun le => (increasing le).trans fits
    · intro le
      by_contra beyond
      exact absurd (high.trans_le ((increasing (by omega)).trans le)) (lt_irrefl _)
  · rw [if_neg fun holds => fits ((two_zpow_le_iff positive' guess).mp holds)]
    constructor
    · exact fun le => (increasing le).trans low
    · intro le
      by_contra beyond
      exact fits ((increasing (by omega)).trans le)

end Scale

section Round

variable {dividend divisor bound : Nat} (positive : 0 < divisor)

include positive

theorem le_roundDiv (le : bound * divisor ≤ dividend) : bound ≤ roundDiv dividend divisor := by
  have quotient : bound ≤ dividend / divisor := (Nat.le_div_iff_mul_le positive).mpr le
  simp only [roundDiv]
  split
  · exact quotient
  · split <;> omega

theorem roundDiv_le (lt : dividend < bound * divisor) : roundDiv dividend divisor ≤ bound := by
  have quotient : dividend / divisor < bound := (Nat.div_lt_iff_lt_mul positive).mpr lt
  simp only [roundDiv]
  split
  · omega
  · split <;> omega

/-- What lies halfway between an odd number and the next one is rounded up. -/
theorem roundDiv_lt_iff (even : bound % 2 = 0) :
    roundDiv dividend divisor < bound ↔ 2 * dividend < (2 * bound - 1) * divisor := by
  have parts : dividend / divisor * divisor + dividend % divisor = dividend :=
    Nat.div_add_mod' dividend divisor
  have remainder : dividend % divisor < divisor := Nat.mod_lt dividend positive
  have steps {lower higher : Nat} (le : lower ≤ higher) : lower * divisor ≤ higher * divisor :=
    Nat.mul_le_mul_right divisor le
  rcases Nat.lt_trichotomy (dividend / divisor + 1) bound with below | rfl | above
  · have next : dividend < (dividend / divisor + 1) * divisor := by
      rw [Nat.add_one_mul]
      omega
    have far := steps (show 2 * (dividend / divisor + 1) ≤ 2 * bound - 1 by omega)
    rw [Nat.mul_assoc] at far
    have rounded := roundDiv_le positive next
    constructor
    · omega
    · omega
  · have odd : (dividend / divisor) % 2 = 1 := by omega
    have exact_ : (2 * (dividend / divisor + 1) - 1) * divisor =
        2 * (dividend / divisor * divisor) + divisor := by
      rw [show 2 * (dividend / divisor + 1) - 1 = 2 * (dividend / divisor) + 1 by omega,
        Nat.add_one_mul, Nat.mul_assoc]
    simp only [roundDiv, odd]
    split
    · omega
    · split <;> omega
  · have reached := steps (show bound ≤ dividend / divisor by omega)
    have short := steps (show 2 * bound - 1 ≤ 2 * bound by omega)
    rw [Nat.mul_assoc] at short
    have rounded := @le_roundDiv dividend divisor bound positive (by omega)
    constructor
    · omega
    · omega

end Round

/-- The middle between the largest double and `2 ^ 1024`. -/
def overflow : Nat :=
  (2 ^ 54 - 1) * 2 ^ 970

theorem overflow_pos : 0 < overflow := by
  rw [overflow]
  positivity

theorem cast_overflow : (overflow : ℚ) = (2 ^ 54 - 1) * 2 ^ (970 : ℤ) := by
  rw [overflow, Nat.cast_mul, Nat.cast_sub Nat.one_le_two_pow, Nat.cast_pow, Nat.cast_pow,
    Nat.cast_ofNat, Nat.cast_one, zpow_ofNat]

theorem two_zpow_le_overflow : (2 : ℚ) ^ (1023 : ℤ) ≤ overflow := by
  have split : (2 : ℚ) ^ (1023 : ℤ) = 2 ^ 53 * 2 ^ (970 : ℤ) := by
    rw [← zpow_ofNat, ← zpow_add₀ two_ne_zero]
    rfl
  rw [split, cast_overflow]
  exact mul_le_mul_of_nonneg_right (by norm_num) (by positivity)

theorem overflow_le_two_zpow : (overflow : ℚ) ≤ 2 ^ (1024 : ℤ) := by
  have split : (2 : ℚ) ^ (1024 : ℤ) = 2 ^ 54 * 2 ^ (970 : ℤ) := by
    rw [← zpow_ofNat, ← zpow_add₀ two_ne_zero]
    rfl
  rw [split, cast_overflow]
  exact mul_le_mul_of_nonneg_right (by norm_num) (by positivity)

theorem isFinite_ofNat_iff {encoding : Nat} :
    isFinite ⟨UInt64.ofNat (min encoding infinityBits)⟩ = true ↔ encoding < infinityBits := by
  have word : (UInt64.ofNat (min encoding infinityBits)).toNat = min encoding infinityBits := by
    rw [UInt64.toNat_ofNat']
    apply Nat.mod_eq_of_lt
    exact Nat.lt_of_le_of_lt (Nat.min_le_right _ _) (by decide)
  have magnitude : min encoding infinityBits % signBit = min encoding infinityBits :=
    Nat.mod_eq_of_lt (Nat.lt_of_le_of_lt (Nat.min_le_right _ _) (by decide))
  rw [isFinite, magnitudeBits, word, magnitude, decide_eq_true_iff]
  omega

/-- The significand is the fraction rounded in units of a power of two. -/
theorem exists_scaled (dividend : Nat) {divisor : Nat} (positive : 0 < divisor) (exponent : ℤ) :
    ∃ scaled unit : Nat, 0 < unit ∧ (scaled / unit : ℚ) * 2 ^ exponent = dividend / divisor ∧
      (if 0 ≤ exponent then roundDiv dividend (divisor * Nat.pow 2 exponent.toNat)
        else roundDiv (dividend * Nat.pow 2 (-exponent).toNat) divisor) =
          roundDiv scaled unit := by
  have above : (divisor : ℚ) ≠ 0 := Nat.cast_ne_zero.mpr (Nat.ne_of_gt positive)
  split
  next nonnegative =>
    obtain ⟨power, rfl⟩ := Int.eq_ofNat_of_zero_le nonnegative
    refine ⟨_, _, Nat.mul_pos positive (Nat.two_pow_pos _), ?_, rfl⟩
    rw [Int.toNat_natCast, zpow_natCast, Nat.cast_mul, Nat.cast_pow, Nat.cast_ofNat]
    field_simp
  next negative =>
    obtain ⟨power, same⟩ := Int.eq_ofNat_of_zero_le (show 0 ≤ -exponent by omega)
    obtain rfl : exponent = -(power : ℤ) := by omega
    refine ⟨_, _, positive, ?_, rfl⟩
    rw [neg_neg, Int.toNat_natCast, zpow_neg, zpow_natCast, Nat.cast_mul, Nat.pow_eq, Nat.cast_pow,
      Nat.cast_ofNat]
    field_simp

section Units

variable {dividend divisor scaled unit : Nat} {exponent : ℤ} (positive : 0 < unit)
  (ratio : (scaled / unit : ℚ) * 2 ^ exponent = dividend / divisor)

include positive ratio

/-- A fraction is compared in units of a power of two. -/
theorem scaled_lt_iff (bound factor : Nat) : factor * scaled < bound * unit ↔
    factor * (dividend / divisor : ℚ) < bound * 2 ^ exponent := by
  have power : (0 : ℚ) < 2 ^ exponent := by positivity
  have above : (0 : ℚ) < unit := Nat.cast_pos.mpr positive
  rw [← ratio, ← mul_assoc, mul_lt_mul_iff_left₀ power, ← mul_div_assoc, div_lt_iff₀ above]
  exact_mod_cast Iff.rfl

theorem scaled_lt_two_pow_iff (places : ℕ) : scaled < 2 ^ places * unit ↔
    (dividend / divisor : ℚ) < 2 ^ (exponent + places) := by
  have compare := scaled_lt_iff positive ratio (2 ^ places) 1
  rwa [one_mul, Nat.cast_one, one_mul, Nat.cast_pow, Nat.cast_ofNat, ← zpow_natCast,
    ← zpow_add₀ two_ne_zero, add_comm] at compare

theorem roundDiv_le_two_pow {places : ℕ}
    (below : (dividend / divisor : ℚ) < 2 ^ (exponent + places)) :
    roundDiv scaled unit ≤ 2 ^ places :=
  roundDiv_le positive ((scaled_lt_two_pow_iff positive ratio places).mpr below)

theorem two_pow_le_roundDiv {places : ℕ}
    (reached : (2 : ℚ) ^ (exponent + places) ≤ dividend / divisor) :
    2 ^ places ≤ roundDiv scaled unit := by
  refine le_roundDiv positive (not_lt.mp fun below => ?_)
  exact not_lt.mpr reached ((scaled_lt_two_pow_iff positive ratio places).mp below)

/-- In the highest binade, the significand is carried over just from the limit on. -/
theorem roundDiv_lt_iff_lt_overflow (highest : exponent = 971) :
    roundDiv scaled unit < 2 ^ 53 ↔ (dividend / divisor : ℚ) < overflow := by
  have halved : (2 : ℚ) ^ (971 : ℤ) = 2 * 2 ^ (970 : ℤ) := by
    rw [← zpow_one_add₀ two_ne_zero]
    rfl
  rw [roundDiv_lt_iff positive (by decide), scaled_lt_iff positive ratio, highest, cast_overflow,
    halved, Nat.cast_ofNat, mul_left_comm, mul_lt_mul_iff_right₀ two_pos]
  norm_num

end Units

/-- A fraction has an infinite double just from the middle between the largest double and
`2 ^ 1024` on. Only in the binade below `2 ^ 1024` does it depend on the rounding. -/
theorem isFinite_ofFraction_iff (dividend : Nat) {divisor : Nat} (positive : 0 < divisor) :
    (ofFraction dividend divisor).isFinite = true ↔ dividend < divisor * overflow := by
  have finite : 0 < divisor * overflow := Nat.mul_pos positive overflow_pos
  rcases Nat.eq_zero_or_pos dividend with rfl | nonzero
  · exact iff_of_true rfl finite
  have above : (0 : ℚ) < divisor := Nat.cast_pos.mpr positive
  have log (exponent : ℤ) := le_floorLog2_iff nonzero positive exponent
  have limit : dividend < divisor * overflow ↔ (dividend / divisor : ℚ) < overflow := by
    rw [div_lt_iff₀ above, mul_comm]
    exact_mod_cast Iff.rfl
  rw [limit, ofFraction, if_neg (Nat.ne_of_gt nonzero)]
  simp only [isFinite_ofNat_iff]
  generalize exponent_ : max (floorLog2 dividend divisor - 52) (-1074) = exponent
  obtain ⟨scaled, unit, unitPositive, ratio, significand⟩ :=
    exists_scaled dividend positive exponent
  rw [significand]
  rcases lt_trichotomy (floorLog2 dividend divisor) 1023 with below | at_ | beyond
  · have small : (dividend / divisor : ℚ) < 2 ^ (1023 : ℤ) :=
      not_le.mp fun le => absurd ((log _).mpr le) (by omega)
    have bounded : (dividend / divisor : ℚ) < 2 ^ (exponent + (53 : ℕ)) :=
      not_le.mp fun le => absurd ((log _).mpr le) (by omega)
    have rounded := roundDiv_le_two_pow unitPositive ratio bounded
    refine iff_of_true ?_ (small.trans_le two_zpow_le_overflow)
    simp only [binade, infinityBits]
    omega
  · rw [← roundDiv_lt_iff_lt_overflow unitPositive ratio (by omega)]
    simp only [binade, infinityBits]
    omega
  · have large : (2 : ℚ) ^ (1024 : ℤ) ≤ dividend / divisor := (log _).mp (by omega)
    have reached : (2 : ℚ) ^ (exponent + (52 : ℕ)) ≤ dividend / divisor :=
      (log _).mp (by omega)
    have rounded := two_pow_le_roundDiv unitPositive ratio reached
    refine iff_of_false ?_ (not_lt.mpr (overflow_le_two_zpow.trans large))
    simp only [binade, infinityBits]
    omega

/-- A decimal with some places behind its point has an infinite double just from the same limit
on. -/
theorem isFinite_ofDecimal_iff (digits places : Nat) :
    (ofDecimal digits (-(places : ℤ))).isFinite = true ↔ digits < 10 ^ places * overflow := by
  rw [ofDecimal]
  split
  next whole =>
    obtain rfl : places = 0 := by omega
    rw [isFinite_ofFraction_iff _ Nat.one_pos, Nat.cast_zero, neg_zero, Int.toNat_zero, Nat.pow_eq,
      pow_zero, mul_one]
  next fraction =>
    rw [neg_neg, Int.toNat_natCast, Nat.pow_eq,
      isFinite_ofFraction_iff digits (Nat.pow_pos (by decide))]

end Krl.Binary64
