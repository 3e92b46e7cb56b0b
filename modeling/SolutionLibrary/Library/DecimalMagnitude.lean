import SolutionLibrary.Library.DecimalArithmetic

namespace solution_library.decimal_float

namespace DecimalFloat

variable {ctx : Context} {a b d result : DecimalFloat}

theorem pow_adjusted_succ (d : DecimalFloat) :
    (10 : ℚ) ^ (d.adjusted + 1) = 10 ^ digitCount d.coefficient * 10 ^ d.exponent := by
  rw [← zpow_natCast, ← zpow_add₀ (by norm_num)]
  congr 1
  rw [adjusted]
  omega

theorem lt_pow_adjusted (d : DecimalFloat) : |d.toRat| < 10 ^ (d.adjusted + 1) := by
  have hlt : (d.coefficient : ℚ) < 10 ^ digitCount d.coefficient := by exact_mod_cast lt_pow_digitCount d.coefficient
  rw [abs_toRat, pow_adjusted_succ]
  exact mul_lt_mul_of_pos_right hlt (zpow_pos (by norm_num) _)

/-- The step of a rounding is at most as large as the exact result, or one. -/
theorem pow_roundedExponent_le (hctx : ctx.Wide) (hc : d.coefficient ≠ 0) :
    (10 : ℚ) ^ d.roundedExponent ctx ≤ |d.toRat| + 1 := by
  have hprec := ctx.prec_pos
  have hetiny := hctx.etiny_le
  rw [roundedExponent]
  obtain hmax | hmax := max_choice (digitCount d.coefficient + d.exponent - ctx.prec : ℤ) ctx.etiny
  · have hle : (10 : ℚ) ^ (digitCount d.coefficient + d.exponent - ctx.prec : ℤ) ≤ 10 ^ d.adjusted := by
      apply zpow_le_zpow_right₀ (by norm_num)
      rw [adjusted]
      omega
    rw [hmax]
    linarith [pow_adjusted_le hc]
  · have hle : (10 : ℚ) ^ ctx.etiny ≤ 10 ^ (0 : ℤ) := zpow_le_zpow_right₀ (by norm_num) (by omega)
    rw [hmax]
    rw [zpow_zero] at hle
    linarith [abs_nonneg d.toRat]

/-- The error of an operation in terms of its result before rounding. -/
theorem abs_fix_sub_le (hctx : ctx.Wide) (h : fix ctx d = some result) :
    2 * |result.toRat - d.toRat| ≤ |d.toRat| + 1 := by
  by_cases hc : d.coefficient = 0
  · rw [fix, if_pos hc] at h
    cases h
    have hzero : toRat ⟨d.negative, d.coefficient, min (max d.exponent ctx.etiny) ctx.emax⟩ = 0 :=
      toRat_eq_zero_iff.mpr hc
    rw [hzero, toRat_eq_zero_iff.mpr hc]
    norm_num
  · exact (fix_near h).2.trans (pow_roundedExponent_le hctx hc)

/-- A number that is not above a power of ten. -/
def Below (n : ℕ) (d : DecimalFloat) : Prop :=
  |d.toRat| ≤ 10 ^ n

namespace Below

variable {n m : ℕ}

theorem mono (h : d.Below n) (hle : n ≤ m) : d.Below m :=
  h.trans (pow_le_pow_right₀ (by norm_num) hle)

theorem fix (hctx : ctx.Wide) (hn : n < ctx.emax) (h : |d.toRat| ≤ 4 * 10 ^ n) :
    ∃ result, DecimalFloat.fix ctx d = some result ∧ result.Below (n + 1) := by
  have hpow : (1 : ℚ) ≤ 10 ^ n := one_le_pow₀ (by norm_num)
  have hlt : |d.toRat| < 10 ^ (n + 1 : ℤ) := by
    rw [zpow_add₀ (by norm_num), zpow_one, zpow_natCast]
    linarith
  obtain ⟨result, hresult⟩ := exists_fix hctx fun hc => (adjusted_lt hc hlt).trans_le hn
  refine ⟨result, hresult, ?_⟩
  have herror := abs_fix_sub_le hctx hresult
  have htriangle := abs_sub_abs_le_abs_sub result.toRat d.toRat
  rw [Below, pow_succ]
  linarith

theorem add (hctx : ctx.Wide) (hn : n < ctx.emax) (ha : a.Below n) (hb : b.Below n) :
    ∃ sum, DecimalFloat.add ctx a b = some sum ∧ sum.Below (n + 1) := by
  apply Below.fix hctx hn
  rw [toRat_exactAdd]
  have htriangle := abs_add_le a.toRat b.toRat
  rw [Below] at ha hb
  linarith [abs_nonneg a.toRat]

theorem sub (hctx : ctx.Wide) (hn : n < ctx.emax) (ha : a.Below n) (hb : b.Below n) :
    ∃ difference, DecimalFloat.sub ctx a b = some difference ∧ difference.Below (n + 1) := by
  apply ha.add hctx hn
  rw [Below, toRat_negate, abs_neg]
  exact hb

theorem mul (hctx : ctx.Wide) (hn : n + m < ctx.emax) (ha : a.Below n) (hb : b.Below m) :
    ∃ product, DecimalFloat.mul ctx a b = some product ∧ product.Below (n + m + 1) := by
  apply Below.fix hctx (by exact_mod_cast hn)
  have hproduct : |a.toRat| * |b.toRat| ≤ 10 ^ n * 10 ^ m := mul_le_mul ha hb (abs_nonneg _) (by positivity)
  rw [toRat_product, abs_mul, pow_add]
  linarith [mul_nonneg (abs_nonneg a.toRat) (abs_nonneg b.toRat)]

theorem div (hctx : ctx.Wide) (hn : n < ctx.emax) (ha : a.Below n) (hb : 1 ≤ |b.toRat|) :
    ∃ result, DecimalFloat.div ctx a b = some result ∧ result.Below (n + 1) := by
  have hbne : b.coefficient ≠ 0 := by
    intro hzero
    rw [toRat_eq_zero_iff.mpr hzero, abs_zero] at hb
    linarith
  rw [DecimalFloat.div, if_neg hbne]
  apply Below.fix hctx hn
  by_cases hane : a.coefficient = 0
  · have hzero : (quotient ctx a b).toRat = 0 := by
      rw [quotient, if_pos hane]
      exact toRat_eq_zero_iff.mpr rfl
    rw [hzero, abs_zero]
    positivity
  · have hquotient : |a.toRat / b.toRat| ≤ |a.toRat| := by
      rw [abs_div]
      exact div_le_self (abs_nonneg _) hb
    have hle := (quotient_bounds ctx hane hbne).2.1
    rw [Below] at ha
    linarith [abs_nonneg a.toRat]

theorem toIntegral (rounding : Rounding) (h : d.Below n) : (d.toIntegral rounding).Below (n + 1) := by
  obtain ⟨k, hk, hnear⟩ := exists_toRat_toIntegral rounding d
  have hpow : (1 : ℚ) ≤ 10 ^ n := one_le_pow₀ (by norm_num)
  have htriangle := abs_sub_abs_le_abs_sub (k : ℚ) d.toRat
  rw [Below] at h
  rw [Below, hk, pow_succ]
  linarith

end Below

/-- The digits of a result reach up to the next power of ten. -/
theorem abs_add_unit_le (d : DecimalFloat) : |d.toRat| + 10 ^ d.exponent ≤ 10 ^ (d.adjusted + 1) := by
  have hunit : (0 : ℚ) < 10 ^ d.exponent := zpow_pos (by norm_num) _
  have hle : (d.coefficient : ℚ) + 1 ≤ 10 ^ digitCount d.coefficient := by
    exact_mod_cast lt_pow_digitCount d.coefficient
  rw [abs_toRat, pow_adjusted_succ]
  nlinarith

/-- A rounded number has at most as many digits as the precision. -/
theorem pow_adjusted_succ_le (ctx : Context) (d : DecimalFloat) :
    (10 : ℚ) ^ (d.adjusted + 1) ≤ 10 ^ d.roundedExponent ctx * 10 ^ ctx.prec := by
  have hmax : (digitCount d.coefficient + d.exponent - ctx.prec : ℤ) ≤ d.roundedExponent ctx := le_max_left _ _
  rw [← zpow_natCast, ← zpow_add₀ (by norm_num)]
  apply zpow_le_zpow_right₀ (by norm_num)
  rw [adjusted]
  omega

/-- Numbers of a grid that are less than a step apart are equal. -/
theorem eq_of_grid {m n : ℤ} {step : ℚ} (hstep : 0 < step) (h : |m * step - n * step| < step) : m = n := by
  rw [← sub_mul, abs_mul, abs_of_pos hstep, mul_lt_iff_lt_one_left hstep] at h
  have hint : |m - n| < 1 := by exact_mod_cast h
  exact sub_eq_zero.mp (Int.abs_lt_one_iff.mp hint)

/-- A number is not changed by the addition of one that is smaller than half of its last digit. -/
theorem exists_add_absorbed (hctx : ctx.Wide) (ha : a.Fits ctx) (hne : a.coefficient ≠ 0)
    (hlt : a.adjusted < ctx.emax) (hsmall : 4 * |b.toRat| * 10 ^ ctx.prec ≤ |a.toRat|) :
    ∃ result, add ctx a b = some result ∧ result.Fits ctx ∧ result.toRat = a.toRat := by
  have hprec : (1 : ℚ) ≤ 10 ^ ctx.prec := one_le_pow₀ (by norm_num)
  have hunit : (0 : ℚ) < 10 ^ a.exponent := zpow_pos (by norm_num) _
  have hetiny := ha.etiny_le
  have hnonneg := abs_nonneg b.toRat
  have hupper := abs_add_unit_le a
  have hlower : 10 ^ a.exponent ≤ |a.toRat| := by
    have hone : (1 : ℚ) ≤ a.coefficient := by exact_mod_cast Nat.pos_of_ne_zero hne
    rw [abs_toRat]
    exact le_mul_of_one_le_left hunit.le hone
  have hb : 4 * |b.toRat| < 10 ^ a.exponent := by
    have hle : (10 : ℚ) ^ digitCount a.coefficient ≤ 10 ^ ctx.prec :=
      pow_le_pow_right₀ (by norm_num) ha.digitCount_le
    have hmul : 4 * |b.toRat| * 10 ^ ctx.prec < 10 ^ a.exponent * 10 ^ ctx.prec := by
      calc 4 * |b.toRat| * 10 ^ ctx.prec ≤ |a.toRat| := hsmall
        _ < 10 ^ (a.adjusted + 1) := lt_pow_adjusted a
        _ = 10 ^ digitCount a.coefficient * 10 ^ a.exponent := pow_adjusted_succ a
        _ ≤ 10 ^ ctx.prec * 10 ^ a.exponent := mul_le_mul_of_nonneg_right hle hunit.le
        _ = 10 ^ a.exponent * 10 ^ ctx.prec := mul_comm _ _
    exact lt_of_mul_lt_mul_right hmul (by positivity)
  have hvalue := toRat_exactAdd a b
  rw [add]
  generalize a.exactAdd b = sum at hvalue ⊢
  have hsumLe : |sum.toRat| ≤ |a.toRat| + |b.toRat| := by
    rw [hvalue]
    exact abs_add_le _ _
  have hsumGe : |a.toRat| - |b.toRat| ≤ |sum.toRat| := by
    rw [hvalue, ← abs_neg b.toRat]
    exact (abs_sub_abs_le_abs_sub _ _).trans_eq (by rw [sub_neg_eq_add])
  have hsumNe : sum.coefficient ≠ 0 := by
    intro hzero
    rw [toRat_eq_zero_iff.mpr hzero, abs_zero] at hsumGe
    linarith
  -- the sum has no more digits before the point than `a`, and is rounded to those of `a` or finer
  have hadjusted : sum.adjusted ≤ a.adjusted := Int.lt_add_one_iff.mp (adjusted_lt hsumNe (by linarith))
  have hexponent : sum.roundedExponent ctx ≤ a.exponent := by
    have hdigits := ha.digitCount_le
    rw [adjusted, adjusted] at hadjusted
    exact max_le (by omega) hetiny
  obtain ⟨result, hresult⟩ := exists_fix hctx fun _ => hadjusted.trans_lt hlt
  obtain ⟨⟨k, hk⟩, hnear⟩ := fix_near hresult
  have hthird : 3 * |b.toRat| < 10 ^ sum.roundedExponent ctx := by
    have hmul : 3 * |b.toRat| * 10 ^ ctx.prec < 10 ^ sum.roundedExponent ctx * 10 ^ ctx.prec := by
      have hsumLt := (lt_pow_adjusted sum).trans_le (pow_adjusted_succ_le ctx sum)
      have hmore : |b.toRat| ≤ |b.toRat| * 10 ^ ctx.prec := le_mul_of_one_le_right hnonneg hprec
      linarith
    exact lt_of_mul_lt_mul_right hmul (by positivity)
  have hclose : |result.toRat - a.toRat| < 10 ^ sum.roundedExponent ctx := by
    have htriangle := abs_sub_le result.toRat sum.toRat a.toRat
    have hdifference : |sum.toRat - a.toRat| = |b.toRat| := by rw [hvalue, add_sub_cancel_left]
    linarith
  have hgrid := toRat_eq_significandAt hexponent
  refine ⟨result, hresult, fits_of_fix hresult, ?_⟩
  rw [hk, hgrid] at hclose
  rw [hk, hgrid, eq_of_grid (zpow_pos (by norm_num) _) hclose]

/-- A result of the context that is not changed by the addition of small numbers. -/
structure Swallows (ctx : Context) (small : ℚ) (d : DecimalFloat) (value : ℚ) : Prop where
  fits : d.Fits ctx
  toRat_eq : d.toRat = value
  small_pos : 0 < small
  le : 4 * small * 10 ^ ctx.prec ≤ |value|
  lt : |value| < 10 ^ ctx.emax

namespace Swallows

variable {small smaller value : ℚ}

theorem mono (h : d.Swallows ctx small value) (hpos : 0 < smaller) (hle : smaller ≤ small) :
    d.Swallows ctx smaller value := by
  obtain ⟨hfits, hvalue, -, hlow, hhigh⟩ := h
  have hprec : (0 : ℚ) < 10 ^ ctx.prec := by positivity
  exact ⟨hfits, hvalue, hpos, (mul_le_mul_of_nonneg_right (by linarith) hprec.le).trans hlow, hhigh⟩

theorem add (hctx : ctx.Wide) (h : d.Swallows ctx small value) (hb : |b.toRat| ≤ small) :
    ∃ sum, DecimalFloat.add ctx d b = some sum ∧ sum.Swallows ctx small value := by
  obtain ⟨hfits, rfl, hpos, hle, hlt⟩ := h
  have hprec : (0 : ℚ) < 10 ^ ctx.prec := by positivity
  have hne : d.coefficient ≠ 0 := by
    intro hzero
    rw [toRat_eq_zero_iff.mpr hzero, abs_zero] at hle
    linarith [mul_pos hpos hprec]
  have hsmall : 4 * |b.toRat| * 10 ^ ctx.prec ≤ |d.toRat| :=
    (mul_le_mul_of_nonneg_right (by linarith) hprec.le).trans hle
  obtain ⟨sum, hsum, hsumFits, hvalue⟩ :=
    exists_add_absorbed hctx hfits hne (adjusted_lt hne hlt) hsmall
  exact ⟨sum, hsum, hsumFits, hvalue, hpos, hle, hlt⟩

theorem sub (hctx : ctx.Wide) (h : d.Swallows ctx small value) (hb : |b.toRat| ≤ small) :
    ∃ difference, DecimalFloat.sub ctx d b = some difference ∧ difference.Swallows ctx small value :=
  h.add hctx (by rwa [toRat_negate, abs_neg])

/-- A result much larger than the small numbers. -/
theorem fix (hctx : ctx.Wide) (hone : 1 ≤ small) (hle : 10 * small * 10 ^ ctx.prec ≤ |d.toRat|)
    (hlt : 4 * |d.toRat| ≤ 10 ^ ctx.emax) :
    ∃ result value, DecimalFloat.fix ctx d = some result ∧ result.Swallows ctx small value := by
  have hprec : (1 : ℚ) ≤ 10 ^ ctx.prec := one_le_pow₀ (by norm_num)
  have hproduct : 1 ≤ small * 10 ^ ctx.prec := one_le_mul_of_one_le_of_one_le hone hprec
  obtain ⟨result, hresult⟩ := exists_fix hctx fun hc => adjusted_lt hc (by linarith [abs_nonneg d.toRat])
  have herror := abs_fix_sub_le hctx hresult
  have hupper := abs_sub_abs_le_abs_sub result.toRat d.toRat
  have hlower := abs_sub_abs_le_abs_sub d.toRat result.toRat
  rw [abs_sub_comm] at hlower
  exact ⟨result, _, hresult, fits_of_fix hresult, rfl, by linarith, by linarith, by linarith⟩

end Swallows

end DecimalFloat

end solution_library.decimal_float
