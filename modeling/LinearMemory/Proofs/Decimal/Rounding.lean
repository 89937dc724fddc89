import Mathlib.Algebra.Order.Field.Power
import Mathlib.Data.Nat.Cast.Order.Field
import Mathlib.Tactic.Linarith
import Mathlib.Tactic.NormNum
import Mathlib.Tactic.Ring
import LinearMemory.Decimal.Double

/-!
# How far rounding goes

The value of a double is a rational number, `Double.value`. The double nearest to a quotient is not
far from it: its value lies between a half and five quarters of the quotient
(`Double.exists_nearest`). That is far from sharp, but it is enough to know that some quotients do
have a double, and that products of these still have one.

The exponent is chosen so that the quotient, measured in units of it, lies between `2 ^ 52` and
`2 ^ 53` (`Double.exponentFor_bounds`), and rounding changes that by less than one unit.
-/

namespace LinearMemory.Double

/-! ### Values -/

/-- **The value of a double.** -/
def value (x : Double) : ℚ := x.significand * 2 ^ x.exponent

/-- The greatest double. -/
def greatest : ℚ := (2 ^ 53 - 1) * 2 ^ 971

theorem two_zpow_pos (e : Int) : (0 : ℚ) < 2 ^ e :=
  zpow_pos (by norm_num) e

/-- A power of two as the quotient of one that is whole and one that divides. -/
theorem two_pow_toNat_div (e : Int) :
    (2 : ℚ) ^ (-e).toNat / 2 ^ e.toNat = (2 ^ e)⁻¹ := by
  rw [← zpow_natCast, ← zpow_natCast, ← zpow_sub₀ (by norm_num), ← zpow_neg]
  congr 1
  omega

/-- **A quotient that is scaled** is divided by the unit. -/
theorem scaled_div (num den : Nat) (e : Int) :
    ((scaled num den e).1 : ℚ) / (scaled num den e).2 = num / den / 2 ^ e := by
  simp only [scaled, Nat.pow_eq, Nat.cast_mul, Nat.cast_pow, Nat.cast_ofNat]
  rw [mul_div_mul_comm, two_pow_toNat_div]
  rfl

theorem quotient_div (x : Double) : (x.quotient.1 : ℚ) / x.quotient.2 = x.value := by
  rw [quotient, scaled_div, value, zpow_neg, Nat.cast_one, div_one, div_inv_eq_mul]

theorem scaled_pos {den : Nat} (h : 0 < den) (num : Nat) (e : Int) :
    0 < (scaled num den e).2 :=
  Nat.mul_pos h (Nat.pow_pos (by decide))

/-! ### Rounding -/

/-- Rounding changes a quotient by one at most. -/
theorem roundEven_bounds (num den : Nat) :
    num / den ≤ roundEven num den ∧ roundEven num den ≤ num / den + 1 := by
  simp only [roundEven]
  split <;> omega

/-- A positive number is between the powers of two that its logarithm tells. -/
theorem two_zpow_log2 {n : Nat} (h : n ≠ 0) :
    (2 : ℚ) ^ (n.log2 : Int) ≤ n ∧ (n : ℚ) < 2 ^ ((n.log2 : Int) + 1) := by
  constructor
  · rw [zpow_natCast]
    exact_mod_cast Nat.log2_self_le h
  · rw [← Nat.cast_succ, zpow_natCast]
    exact_mod_cast Nat.lt_log2_self

/-- The logarithms of numerator and denominator tell a quotient up to a factor of four. -/
theorem log2_bounds {num den : Nat} (hnum : num ≠ 0) (hden : den ≠ 0) :
    (2 : ℚ) ^ 52 ≤ num / den / 2 ^ ((num.log2 : Int) - den.log2 - 53) ∧
      (num : ℚ) / den / 2 ^ ((num.log2 : Int) - den.log2 - 53) < 2 ^ 54 := by
  obtain ⟨hnumLow, hnumHigh⟩ := two_zpow_log2 hnum
  obtain ⟨hdenLow, hdenHigh⟩ := two_zpow_log2 hden
  have hunit := two_zpow_pos ((num.log2 : Int) - den.log2 - 53)
  have hpos : (0 : ℚ) < den := by exact_mod_cast Nat.pos_of_ne_zero hden
  rw [div_div, le_div_iff₀ (mul_pos hpos hunit), div_lt_iff₀ (mul_pos hpos hunit)]
  constructor
  · calc (2 : ℚ) ^ 52 * (den * 2 ^ ((num.log2 : Int) - den.log2 - 53))
        ≤ 2 ^ 52 * (2 ^ ((den.log2 : Int) + 1) * 2 ^ ((num.log2 : Int) - den.log2 - 53)) := by
          gcongr
      _ = 2 ^ (num.log2 : Int) := by
          rw [← zpow_natCast, ← zpow_add₀ (by norm_num), ← zpow_add₀ (by norm_num)]
          congr 1
          omega
      _ ≤ num := hnumLow
  · calc (num : ℚ) < 2 ^ ((num.log2 : Int) + 1) := hnumHigh
      _ = 2 ^ 54 * (2 ^ (den.log2 : Int) * 2 ^ ((num.log2 : Int) - den.log2 - 53)) := by
          rw [← zpow_natCast 2 54, ← zpow_add₀ (by norm_num), ← zpow_add₀ (by norm_num)]
          congr 1
          omega
      _ ≤ 2 ^ 54 * (den * 2 ^ ((num.log2 : Int) - den.log2 - 53)) := by
          gcongr

/-- **The unit of a quotient**: measured in it, the quotient is between `2 ^ 52` and `2 ^ 53`. -/
theorem exponentFor_bounds {num den : Nat} (hden : 0 < den) (hlow : den ≤ 4 * num) :
    (2 : ℚ) ^ 52 ≤ num / den / 2 ^ exponentFor num den ∧
      (num : ℚ) / den / 2 ^ exponentFor num den < 2 ^ 53 := by
  have hnum : num ≠ 0 := by omega
  obtain ⟨hge, hlt⟩ := log2_bounds hnum (Nat.ne_of_gt hden)
  -- the quotient is not so small that the least exponent would count
  have hguess : minExponent ≤ (num.log2 : Int) - den.log2 - 53 := by
    have hlog : den.log2 < num.log2 + 3 := by
      rw [Nat.log2_lt (Nat.ne_of_gt hden)]
      have hnumHigh := @Nat.lt_log2_self num
      simp only [Nat.pow_succ] at hnumHigh ⊢
      omega
    have hmin : minExponent = -1074 := rfl
    omega
  have hfloor : (scaled num den ((num.log2 : Int) - den.log2 - 53)).1 /
      (scaled num den ((num.log2 : Int) - den.log2 - 53)).2 < 2 ^ 53 ↔
        (num : ℚ) / den / 2 ^ ((num.log2 : Int) - den.log2 - 53) < 2 ^ 53 := by
    have hpos := scaled_pos hden num ((num.log2 : Int) - den.log2 - 53)
    rw [← scaled_div, Nat.div_lt_iff_lt_mul hpos, div_lt_iff₀ (by exact_mod_cast hpos)]
    exact_mod_cast Iff.rfl
  have hexponent : exponentFor num den = if (num : ℚ) / den /
      2 ^ ((num.log2 : Int) - den.log2 - 53) < 2 ^ 53 then (num.log2 : Int) - den.log2 - 53
      else (num.log2 : Int) - den.log2 - 53 + 1 := by
    have hdef : exponentFor num den = max minExponent
        (if (scaled num den ((num.log2 : Int) - den.log2 - 53)).1 /
            (scaled num den ((num.log2 : Int) - den.log2 - 53)).2 < 2 ^ 53
          then (num.log2 : Int) - den.log2 - 53 else (num.log2 : Int) - den.log2 - 53 + 1) := rfl
    rw [hdef, if_congr hfloor rfl rfl, max_eq_right]
    split <;> omega
  rw [hexponent]
  split
  · next h => exact ⟨hge, h⟩
  · next h =>
    rw [zpow_add₀ (by norm_num), zpow_one, ← div_div]
    constructor
    · linarith
    · linarith

/-- Rounding changes a quotient by less than one unit. -/
theorem roundEven_scaled_bounds {den : Nat} (hden : 0 < den) (num : Nat) (e : Int) :
    (num : ℚ) / den / 2 ^ e < roundEven (scaled num den e).1 (scaled num den e).2 + 1 ∧
      (roundEven (scaled num den e).1 (scaled num den e).2 : ℚ) ≤ num / den / 2 ^ e + 1 := by
  have hpos := scaled_pos hden num e
  obtain ⟨hfloor, hceil⟩ := roundEven_bounds (scaled num den e).1 (scaled num den e).2
  constructor
  · rw [← scaled_div, div_lt_iff₀ (by exact_mod_cast hpos)]
    exact_mod_cast (Nat.div_lt_iff_lt_mul hpos).1 (Nat.lt_succ_of_le hfloor)
  · have hdiv : (((scaled num den e).1 / (scaled num den e).2 : Nat) : ℚ) ≤ num / den / 2 ^ e := by
      rw [← scaled_div]
      exact Nat.cast_div_le
    have hsucc : (roundEven (scaled num den e).1 (scaled num den e).2 : ℚ) ≤
        ((scaled num den e).1 / (scaled num den e).2 : Nat) + 1 := by
      exact_mod_cast hceil
    linarith

/-- **The unit of a quotient below the greatest double** is one of a double, and so is the next one
if the quotient is rounded up to it. -/
theorem exponent_le {r : ℚ} {e : Int} (hge : 2 ^ 52 ≤ r) (h : r * 2 ^ e < greatest) :
    e ≤ 971 ∧ (2 ^ 53 - 1 ≤ r → e + 1 ≤ 971) := by
  have hunit := two_zpow_pos e
  -- a greater exponent would be that of a greater quotient
  have hexceeds (k : Int) (least : ℚ) (hk : k ≤ e) (hleast : 0 ≤ least) (hr : least ≤ r) :
      least * 2 ^ k < greatest := by
    have hpow : (2 : ℚ) ^ k ≤ 2 ^ e := zpow_le_zpow_right₀ (by norm_num) hk
    calc least * 2 ^ k ≤ r * 2 ^ e := by gcongr
      _ < greatest := h
  constructor
  · by_contra hlarge
    have h := hexceeds (972 : Nat) (2 ^ 52) (by omega) (by norm_num) hge
    have hpow : (0 : ℚ) < 2 ^ 971 := by positivity
    have hsucc : (2 : ℚ) ^ 972 = 2 ^ 971 * 2 := pow_succ 2 971
    rw [zpow_natCast, hsucc, greatest] at h
    generalize (2 : ℚ) ^ 971 = u at h hpow
    linarith
  · intro hfull
    by_contra hlarge
    have h := hexceeds (971 : Nat) (2 ^ 53 - 1) (by omega) (by norm_num) hfull
    rw [zpow_natCast] at h
    exact lt_irrefl _ h

/-- **The double nearest to a quotient** that is neither too small nor too large: there is one, and
its value is between a half and five quarters of the quotient. -/
theorem exists_nearest {num den : Nat} (hden : 0 < den) (hlow : den ≤ 4 * num)
    (hhigh : (num : ℚ) / den < greatest) :
    ∃ x, nearest num den = some x ∧ (num : ℚ) / den / 2 ≤ x.value ∧
      x.value ≤ 5 / 4 * (num / den) := by
  obtain ⟨hge, -⟩ := exponentFor_bounds hden hlow
  obtain ⟨hsLow, hsHigh⟩ := roundEven_scaled_bounds hden num (exponentFor num den)
  generalize hexponent : exponentFor num den = e at hge hsLow hsHigh
  generalize hs : roundEven (scaled num den e).1 (scaled num den e).2 = s at hsLow hsHigh
  have hunit := two_zpow_pos e
  have hquotient : (num : ℚ) / den = num / den / 2 ^ e * 2 ^ e :=
    (div_mul_cancel₀ _ (ne_of_gt hunit)).symm
  generalize (num : ℚ) / den / 2 ^ e = r at *
  rw [hquotient] at hhigh ⊢
  obtain ⟨hmax, hnext⟩ := exponent_le hge hhigh
  have hbounds : r * 2 ^ e / 2 ≤ s * 2 ^ e ∧ (s : ℚ) * 2 ^ e ≤ 5 / 4 * (r * 2 ^ e) := by
    have hhalf : r / 2 ≤ s := by linarith
    have hfive : (s : ℚ) ≤ 5 / 4 * r := by linarith
    constructor
    · calc r * 2 ^ e / 2 = r / 2 * 2 ^ e := by ring
        _ ≤ s * 2 ^ e := by gcongr
    · calc (s : ℚ) * 2 ^ e ≤ 5 / 4 * r * 2 ^ e := by gcongr
        _ = 5 / 4 * (r * 2 ^ e) := by ring
  by_cases hfull : s = 2 ^ 53
  · have hcast : (s : ℚ) = 2 ^ 53 := by exact_mod_cast hfull
    have hsame : value ⟨2 ^ 52, e + 1⟩ = s * 2 ^ e := by
      rw [value, hfull, zpow_add₀ (by norm_num), zpow_one]
      push_cast
      ring
    have hpower : s = Nat.pow 2 precision := hfull
    refine ⟨⟨2 ^ 52, e + 1⟩, ?_, hsame ▸ hbounds⟩
    simp only [nearest, hexponent, hs, if_pos hpower]
    exact if_pos (hnext (by linarith))
  · have hpower : s ≠ Nat.pow 2 precision := hfull
    refine ⟨⟨s, e⟩, ?_, hbounds⟩
    simp only [nearest, hexponent, hs, if_neg hpower]
    exact if_pos hmax

/-! ### Numbers and products -/

/-- A whole number below the greatest double is one, nearly. -/
theorem exists_ofNat? {n : Nat} (hpos : 0 < n) (h : (n : ℚ) < greatest) :
    ∃ x, ofNat? n = some x ∧ (n : ℚ) / 2 ≤ x.value ∧ x.value ≤ 5 / 4 * n := by
  have hone : (n : ℚ) / (1 : Nat) = n := by rw [Nat.cast_one, div_one]
  have hnearest := @exists_nearest n 1 Nat.one_pos (by omega) (by rwa [hone])
  rwa [hone] at hnearest

/-- **Two doubles have a product** if it is neither too small nor too large. -/
theorem exists_mul? {x y : Double} (hlow : 1 / 4 ≤ x.value * y.value)
    (hhigh : x.value * y.value < greatest) : ∃ z, x.mul? y = some z := by
  have hden (x : Double) : 0 < x.quotient.2 := scaled_pos Nat.one_pos _ _
  have hpos : 0 < x.quotient.2 * y.quotient.2 := Nat.mul_pos (hden x) (hden y)
  have hquotient : ((x.quotient.1 * y.quotient.1 : Nat) : ℚ) /
      (x.quotient.2 * y.quotient.2 : Nat) = x.value * y.value := by
    rw [Nat.cast_mul, Nat.cast_mul, ← div_mul_div_comm, quotient_div, quotient_div]
  have hquarter : x.quotient.2 * y.quotient.2 ≤ 4 * (x.quotient.1 * y.quotient.1) := by
    rw [← hquotient, le_div_iff₀ (by exact_mod_cast hpos)] at hlow
    have hfour : ((x.quotient.2 * y.quotient.2 : Nat) : ℚ) ≤
        4 * (x.quotient.1 * y.quotient.1 : Nat) := by linarith
    exact_mod_cast hfour
  obtain ⟨z, hz, -⟩ := exists_nearest hpos hquarter (hquotient ▸ hhigh)
  exact ⟨z, hz⟩

/-- The greatest power of ten has room for the errors of two roundings. -/
theorem ten_pow_lt_greatest : 25 / 16 * (10 : ℚ) ^ 308 < greatest := by
  have hnat : 25 * 10 ^ 308 < 16 * (9007199254740991 * 2 ^ 971) := by decide +kernel
  have hrat : ((25 * 10 ^ 308 : Nat) : ℚ) < (16 * (9007199254740991 * 2 ^ 971) : Nat) :=
    Nat.cast_lt.2 hnat
  simp only [Nat.cast_mul, Nat.cast_pow, Nat.cast_ofNat] at hrat
  rw [greatest]
  generalize (10 : ℚ) ^ 308 = a at hrat ⊢
  generalize (2 : ℚ) ^ 971 = b at hrat ⊢
  linarith

end LinearMemory.Double
