import GoldenHarness.Decimal.Shortest
import Mathlib.Algebra.Order.Field.Power
import Mathlib.Algebra.Order.Ring.Rat
import Mathlib.Data.Rat.Cast.Order
import Mathlib.Tactic.FieldSimp
import Mathlib.Tactic.Linarith
import Mathlib.Tactic.NormNum
import Mathlib.Tactic.Positivity
import Mathlib.Tactic.Ring

/-!
# Which decimals are too large

A positive decimal is read as a double-precision number exactly if it is below `2 ^ 1024 - 2 ^ 970`.
That is half way from the greatest such number, `(2 ^ 53 - 1) * 2 ^ 971`, to the number that would
come next, whose mantissa is even.
-/

namespace GoldenHarness.Decimal

/-- The number that a decimal stands for. -/
def value (d : Decimal) : ℚ := d.digits * 10 ^ d.exponent

/-! ## Rounding to a natural number -/

variable {num den m : Nat}

theorem roundHalfEven_le (hden : den ≠ 0) (h : (num / den : ℚ) < m) : roundHalfEven num den ≤ m := by
  have hpos : (0 : ℚ) < den := Nat.cast_pos.mpr (Nat.pos_of_ne_zero hden)
  rw [div_lt_iff₀ hpos, ← Nat.cast_mul, Nat.cast_lt] at h
  have hdown : num / den < m := Nat.div_lt_of_lt_mul (by rwa [Nat.mul_comm])
  unfold roundHalfEven
  dsimp only
  split <;> omega

/-- An even number is reached from half below it on. -/
theorem le_roundHalfEven_iff (hden : den ≠ 0) (heven : m % 2 = 0) :
    m ≤ roundHalfEven num den ↔ (m - 1 / 2 : ℚ) ≤ num / den := by
  have hpos : (0 : ℚ) < den := Nat.cast_pos.mpr (Nat.pos_of_ne_zero hden)
  have hhalf : (m - 1 / 2 : ℚ) ≤ num / den ↔ 2 * (m * den) ≤ 2 * num + den := by
    rw [le_div_iff₀ hpos, ← Nat.cast_le (α := ℚ)]
    push_cast
    constructor <;> intro h <;> linarith
  rw [hhalf]
  have hsplit := Nat.div_add_mod' num den
  have hrest := Nat.mod_lt num (Nat.pos_of_ne_zero hden)
  unfold roundHalfEven
  dsimp only
  generalize num / den = down at hsplit ⊢
  generalize num % den = rest at hsplit hrest ⊢
  -- what is reached next to a natural number, when both are multiplied by `den`
  have hnext (n : Nat) : (m ≤ n → m * den ≤ n * den) ∧ (n + 1 ≤ m → n * den + den ≤ m * den) :=
    ⟨Nat.mul_le_mul_right den, fun h => Nat.succ_mul n den ▸ Nat.mul_le_mul_right den h⟩
  have hdown := hnext down
  have hup := hnext (down + 1)
  rw [Nat.succ_mul] at hup
  split
  · next h =>
    rw [Nat.compare_eq_lt] at h
    omega
  · next h =>
    rw [Nat.compare_eq_gt] at h
    omega
  · next h =>
    rw [Nat.compare_eq_eq] at h
    -- both candidates are equally near, and `m` is even like the one that is taken
    have htie : m ≤ down + down % 2 ↔ m ≤ down + 1 := by omega
    omega

/-! ## The scale of a number -/

theorem cast_twoPow (n : Nat) : (twoPow n : ℚ) = 2 ^ n := Nat.cast_pow 2 n

theorem cast_tenPow (n : Nat) : (tenPow n : ℚ) = 10 ^ n := Nat.cast_pow 10 n

/-- A power of a base is a fraction of two powers, one of which is one. -/
theorem pow_toNat_div {b : ℚ} (hb : b ≠ 0) (q : Int) :
    b ^ q.toNat / b ^ (-q).toNat = b ^ q := by
  rw [← zpow_natCast, ← zpow_natCast, ← zpow_sub₀ hb]
  congr 1
  omega

theorem value_eq_div (d : Decimal) :
    d.value = (d.digits * tenPow d.exponent.toNat : Nat) / (tenPow (-d.exponent).toNat : Nat) := by
  unfold value
  rw [Nat.cast_mul, cast_tenPow, cast_tenPow, mul_div_assoc, pow_toNat_div (by norm_num)]

theorem twoPow_ne_zero (n : Nat) : twoPow n ≠ 0 := Nat.ne_of_gt (Nat.two_pow_pos n)

/-- A fraction counted in units of a power of two. -/
theorem scaled_eq_div (num den : Nat) (q : Int) :
    ((num * twoPow (-q).toNat : Nat) / (den * twoPow q.toNat : Nat) : ℚ) = num / den / 2 ^ q := by
  rw [← pow_toNat_div two_ne_zero q, Nat.cast_mul, Nat.cast_mul, cast_twoPow, cast_twoPow]
  have hden (n : Nat) : (2 : ℚ) ^ n ≠ 0 := by positivity
  field_simp

theorem log2_le (h : num ≠ 0) : (2 : ℚ) ^ num.log2 ≤ num := by
  exact_mod_cast Nat.log2_self_le h

theorem lt_log2 (num : Nat) : (num : ℚ) < 2 ^ (num.log2 + 1) := by
  have h : num < 2 ^ (num.log2 + 1) := Nat.lt_log2_self
  exact_mod_cast h

namespace Double

variable {q : Int}

theorem lt_div_of_log2 (hnum : num ≠ 0) (hden : den ≠ 0) :
    (2 : ℚ) ^ ((num.log2 : Int) - den.log2 - 1) < num / den := by
  have hpos : (0 : ℚ) < den := Nat.cast_pos.mpr (Nat.pos_of_ne_zero hden)
  rw [lt_div_iff₀ hpos]
  calc (2 : ℚ) ^ ((num.log2 : Int) - den.log2 - 1) * den
      < 2 ^ ((num.log2 : Int) - den.log2 - 1) * 2 ^ (den.log2 + 1) :=
        mul_lt_mul_of_pos_left (lt_log2 den) (by positivity)
    _ = 2 ^ num.log2 := by
        rw [← zpow_natCast, ← zpow_natCast, ← zpow_add₀ two_ne_zero]
        congr 1
        omega
    _ ≤ num := log2_le hnum

theorem div_lt_of_log2 (hden : den ≠ 0) :
    (num / den : ℚ) < 2 ^ ((num.log2 : Int) - den.log2 + 1) := by
  have hpos : (0 : ℚ) < den := Nat.cast_pos.mpr (Nat.pos_of_ne_zero hden)
  rw [div_lt_iff₀ hpos]
  calc (num : ℚ) < 2 ^ (num.log2 + 1) := lt_log2 num
    _ = 2 ^ ((num.log2 : Int) - den.log2 + 1) * 2 ^ den.log2 := by
        rw [← zpow_natCast, ← zpow_natCast, ← zpow_add₀ two_ne_zero]
        congr 1
        omega
    _ ≤ 2 ^ ((num.log2 : Int) - den.log2 + 1) * den :=
        mul_le_mul_of_nonneg_left (log2_le hden) (by positivity)

/-- The exponent is such that the mantissa has 53 bits, unless it would be below the least. -/
theorem exists_scale (hnum : num ≠ 0) (hden : den ≠ 0) :
    ∃ q : Int, nearest num den = withExponent num den (max q minExponent) ∧
      (2 : ℚ) ^ (q + 52) ≤ num / den ∧ (num / den : ℚ) < 2 ^ (q + 53) := by
  have hlow := lt_div_of_log2 hnum hden
  have hhigh := @div_lt_of_log2 num _ hden
  rw [nearest]
  generalize hguess : (num.log2 : Int) - den.log2 - 53 = guess
  rw [(by omega : (num.log2 : Int) - den.log2 - 1 = guess + 52)] at hlow
  rw [(by omega : (num.log2 : Int) - den.log2 + 1 = guess + 1 + 53)] at hhigh
  have hfits : num * twoPow (-guess).toNat < den * twoPow guess.toNat * twoPow 53 ↔
      (num / den : ℚ) < 2 ^ (guess + 53) := by
    have hunits : (0 : ℚ) < (den * twoPow guess.toNat : Nat) :=
      Nat.cast_pos.mpr (Nat.pos_of_ne_zero (Nat.mul_ne_zero hden (twoPow_ne_zero _)))
    rw [Nat.mul_comm _ (twoPow 53), ← Nat.cast_lt (α := ℚ), Nat.cast_mul (twoPow 53),
      ← div_lt_iff₀ hunits, scaled_eq_div, div_lt_iff₀ (by positivity), cast_twoPow,
      zpow_add₀ two_ne_zero, mul_comm]
    rfl
  split
  · next h => exact ⟨guess, rfl, hlow.le, hfits.mp h⟩
  · next h =>
    have hfar := not_lt.mp (hfits.not.mp h)
    rw [(by omega : guess + 53 = guess + 1 + 52)] at hfar
    exact ⟨guess + 1, rfl, hfar, hhigh⟩

/-- A mantissa that is rounded up to `2 ^ 53` is halved. -/
theorem withExponent_exponent (hden : den ≠ 0) (h : (num / den : ℚ) < 2 ^ (q + 53)) :
    (withExponent num den q).exponent =
      if (2 : ℚ) ^ (q + 53) - 2 ^ (q - 1) ≤ num / den then q + 1 else q := by
  have hunit : (0 : ℚ) < 2 ^ q := by positivity
  have hscaled : den * twoPow q.toNat ≠ 0 := Nat.mul_ne_zero hden (twoPow_ne_zero _)
  rw [withExponent]
  generalize hmantissa : roundHalfEven (num * twoPow (-q).toNat) (den * twoPow q.toNat) = mantissa
  have hle : mantissa ≤ twoPow 53 := by
    rw [← hmantissa]
    refine roundHalfEven_le hscaled ?_
    rw [scaled_eq_div, div_lt_iff₀ hunit, cast_twoPow, mul_comm]
    rwa [zpow_add₀ two_ne_zero] at h
  have hge : twoPow 53 ≤ mantissa ↔ (2 : ℚ) ^ (q + 53) - 2 ^ (q - 1) ≤ num / den := by
    have hhalf : (twoPow 53 - 1 / 2 : ℚ) * 2 ^ q = 2 ^ (q + 53) - 2 ^ (q - 1) := by
      rw [cast_twoPow, zpow_add₀ two_ne_zero, zpow_sub_one₀ two_ne_zero, zpow_ofNat]
      ring
    rw [← hmantissa, le_roundHalfEven_iff hscaled (by decide), scaled_eq_div, le_div_iff₀ hunit, hhalf]
  split
  · next hfull => rw [if_pos (hge.mp hfull.ge)]
  · next hfull => rw [if_neg fun hreached => hfull (Nat.le_antisymm hle (hge.mpr hreached))]

theorem limit_eq : (2 : ℚ) ^ 1024 - 2 ^ 970 = (2 ^ 54 - 1) * 2 ^ 970 := by
  rw [sub_mul, ← pow_add, one_mul]

theorem maxExponent_lt_nearest_iff (hnum : num ≠ 0) (hden : den ≠ 0) :
    maxExponent < (nearest num den).exponent ↔ (2 : ℚ) ^ 1024 - 2 ^ 970 ≤ num / den := by
  obtain ⟨q, hnearest, hlow, hhigh⟩ := exists_scale hnum hden
  have hmono {i j : Int} (hij : i ≤ j) : (2 : ℚ) ^ i ≤ 2 ^ j := zpow_le_zpow_right₀ one_le_two hij
  have hscale : (num / den : ℚ) < 2 ^ (max q minExponent + 53) :=
    hhigh.trans_le (hmono (by omega))
  rw [hnearest, withExponent_exponent hden hscale]
  unfold maxExponent minExponent
  rcases lt_trichotomy q 971 with hq | rfl | hq
  · -- the number is below half of the bound
    have hsmall : (num / den : ℚ) < 2 ^ 1024 - 2 ^ 970 :=
      calc (num / den : ℚ) < 2 ^ (q + 53) := hhigh
        _ ≤ 2 ^ (1023 : Int) := hmono (by omega)
        _ = 2 ^ 53 * 2 ^ 970 := by rw [← pow_add]; exact zpow_natCast 2 1023
        _ < (2 ^ 54 - 1) * 2 ^ 970 := mul_lt_mul_of_pos_right (by norm_num) (by positivity)
        _ = 2 ^ 1024 - 2 ^ 970 := limit_eq.symm
    refine iff_of_false ?_ (not_le.mpr hsmall)
    split <;> omega
  · have hbound : (2 : ℚ) ^ ((971 : Int) + 53) - 2 ^ ((971 : Int) - 1) = 2 ^ 1024 - 2 ^ 970 := by
      norm_num
    rw [max_eq_left (by decide), hbound]
    split
    · next h => exact iff_of_true (by decide) h
    · next h => exact iff_of_false (by decide) h
  · have hlarge : (2 : ℚ) ^ 1024 - 2 ^ 970 ≤ num / den :=
      calc (2 : ℚ) ^ 1024 - 2 ^ 970 ≤ 2 ^ (1024 : Int) := by norm_num
        _ ≤ 2 ^ (q + 52) := hmono (by omega)
        _ ≤ num / den := hlow
    refine iff_of_true ?_ hlarge
    split <;> omega

end Double

/-! ## The guards -/

theorem pow_le_value {d : Decimal} (h : d.digits ≠ 0) :
    (10 : ℚ) ^ ((d.digits.log2 / 4 : Nat) + d.exponent) ≤ d.value := by
  unfold value
  rw [zpow_add₀ (by norm_num)]
  refine mul_le_mul_of_nonneg_right ?_ (by positivity)
  calc (10 : ℚ) ^ ((d.digits.log2 / 4 : Nat) : Int) = 10 ^ (d.digits.log2 / 4) := zpow_natCast _ _
    _ ≤ (2 ^ 4) ^ (d.digits.log2 / 4) := by gcongr; norm_num
    _ = 2 ^ (4 * (d.digits.log2 / 4)) := (pow_mul 2 4 _).symm
    _ ≤ 2 ^ d.digits.log2 := pow_le_pow_right₀ one_le_two (Nat.mul_div_le _ _)
    _ ≤ d.digits := log2_le h

theorem value_lt_pow (d : Decimal) :
    d.value < (10 : ℚ) ^ ((d.digits.log2 / 3 : Nat) + d.exponent + 1) := by
  unfold value
  rw [add_right_comm, zpow_add₀ (by norm_num)]
  refine mul_lt_mul_of_pos_right ?_ (by positivity)
  calc (d.digits : ℚ) < 2 ^ (d.digits.log2 + 1) := lt_log2 _
    _ ≤ 2 ^ (3 * (d.digits.log2 / 3 + 1)) := pow_le_pow_right₀ one_le_two (by omega)
    _ = (2 ^ 3) ^ (d.digits.log2 / 3 + 1) := pow_mul 2 3 _
    _ ≤ 10 ^ (d.digits.log2 / 3 + 1) := by gcongr; norm_num
    _ = 10 ^ (((d.digits.log2 / 3 : Nat) : Int) + 1) := (zpow_natCast _ _).symm

/-- **Which decimals are too large.** -/
theorem ofDecimal?_eq_none_iff {d : Decimal} (h : d.digits ≠ 0) :
    Double.ofDecimal? d = none ↔ 2 ^ 1024 - 2 ^ 970 ≤ d.value := by
  have hmono {i j : Int} (hij : i ≤ j) : (10 : ℚ) ^ i ≤ 10 ^ j :=
    zpow_le_zpow_right₀ (by norm_num) hij
  unfold Double.ofDecimal?
  split
  · next hguard =>
    have hlarge : (2 : ℚ) ^ 1024 - 2 ^ 970 ≤ d.value :=
      calc (2 : ℚ) ^ 1024 - 2 ^ 970 ≤ 2 ^ 1024 := sub_le_self _ (by positivity)
        _ ≤ 2 ^ (3 * 401) := pow_le_pow_right₀ one_le_two (by decide)
        _ = (2 ^ 3) ^ 401 := pow_mul 2 3 401
        _ ≤ 10 ^ 401 := by gcongr; norm_num
        _ = 10 ^ (401 : Int) := (zpow_natCast 10 401).symm
        _ ≤ 10 ^ ((d.digits.log2 / 4 : Nat) + d.exponent) := hmono hguard
        _ ≤ d.value := pow_le_value h
    exact iff_of_true rfl hlarge
  · split
    · next hguard =>
      have hsmall : d.value < 2 ^ 1024 - 2 ^ 970 :=
        calc d.value < 10 ^ ((d.digits.log2 / 3 : Nat) + d.exponent + 1) := value_lt_pow d
          _ ≤ 10 ^ (0 : Int) := hmono (by omega)
          _ ≤ (2 ^ 54 - 1) * 2 ^ 970 := one_le_mul_of_one_le_of_one_le (by norm_num)
            (one_le_pow₀ one_le_two)
          _ = 2 ^ 1024 - 2 ^ 970 := Double.limit_eq.symm
      exact iff_of_false (Option.some_ne_none _) (not_le.mpr hsmall)
    · have hnum : d.digits * tenPow d.exponent.toNat ≠ 0 :=
        Nat.mul_ne_zero h (Nat.ne_of_gt (Nat.pow_pos (by decide)))
      have hden : tenPow (-d.exponent).toNat ≠ 0 := Nat.ne_of_gt (Nat.pow_pos (by decide))
      rw [value_eq_div, ← Double.maxExponent_lt_nearest_iff hnum hden]
      dsimp only
      split
      · next hover => exact iff_of_true rfl hover
      · next hover => exact iff_of_false (Option.some_ne_none _) hover

end GoldenHarness.Decimal
