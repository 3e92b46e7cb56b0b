import SolutionLibrary.Library.DecimalRounding

namespace solution_library.decimal_float

namespace DecimalFloat

def negate (d : DecimalFloat) : DecimalFloat :=
  { d with negative := !d.negative }

/-- The number with the other sign, as the result of an operation; a zero is not negative. -/
def neg (ctx : Context) (d : DecimalFloat) : Option DecimalFloat :=
  fix ctx (if d.coefficient = 0 then { d with negative := false } else d.negate)

def sub (ctx : Context) (a b : DecimalFloat) : Option DecimalFloat :=
  add ctx a b.negate

/-- Zeros at the end of the coefficient are dropped, so many at most. -/
def dropZeros : ℕ → DecimalFloat → DecimalFloat
  | 0, d => d
  | n + 1, d => if d.coefficient % 10 = 0 then dropZeros n ⟨d.negative, d.coefficient / 10, d.exponent + 1⟩ else d

/-- A quotient with at least one digit more than the precision. If there is a remainder, the last digit is neither a
zero nor a five, and the quotient is rounded as if all digits were there. -/
def quotient (ctx : Context) (a b : DecimalFloat) : DecimalFloat :=
  let negative := xor a.negative b.negative
  let exponent := a.exponent - b.exponent
  let shift : ℤ := digitCount b.coefficient - digitCount a.coefficient + ctx.prec + 1
  let dividend := a.coefficient * 10 ^ shift.toNat
  let divisor := b.coefficient * 10 ^ (-shift).toNat
  if a.coefficient = 0 then ⟨negative, 0, exponent⟩
  else if dividend % divisor = 0 then dropZeros shift.toNat ⟨negative, dividend / divisor, exponent - shift⟩
  else
    ⟨negative, if dividend / divisor % 5 = 0 then dividend / divisor + 1 else dividend / divisor, exponent - shift⟩

/-- None if the divisor is a zero, or the quotient overflows. -/
def div (ctx : Context) (a b : DecimalFloat) : Option DecimalFloat :=
  if b.coefficient = 0 then none else fix ctx (quotient ctx a b)

variable {ctx : Context} {a b d result : DecimalFloat}

theorem toRat_negate (d : DecimalFloat) : d.negate.toRat = -d.toRat := by
  rw [toRat_eq_sign, toRat_eq_sign, negate]
  cases d.negative <;> simp

theorem toRat_dropZeros (n : ℕ) (d : DecimalFloat) : (dropZeros n d).toRat = d.toRat := by
  induction n generalizing d with
  | zero => rfl
  | succ n ih =>
    rw [dropZeros]
    split_ifs with hzero
    · have hcoefficient : (d.coefficient : ℚ) = (d.coefficient / 10 : ℕ) * 10 := by
        exact_mod_cast (Nat.div_mul_cancel (Nat.dvd_of_mod_eq_zero hzero)).symm
      rw [ih, toRat_eq_sign, toRat_eq_sign, hcoefficient, zpow_add₀ (by norm_num), zpow_one]
      ring
    · rfl

/-- A quotient of numbers as one of natural numbers. -/
theorem toRat_div_toRat (a b : DecimalFloat) (shift : ℤ) : a.toRat / b.toRat =
    (if xor a.negative b.negative then -1 else 1) *
      ((a.coefficient * 10 ^ shift.toNat : ℕ) / (b.coefficient * 10 ^ (-shift).toNat : ℕ)) *
        10 ^ (a.exponent - b.exponent - shift) := by
  have hshift : (10 : ℚ) ^ shift.toNat = 10 ^ shift * 10 ^ (-shift).toNat := by
    rw [← zpow_natCast, ← zpow_natCast, ← zpow_add₀ (by norm_num)]
    congr 1
    omega
  have hscale : (10 : ℚ) ^ shift ≠ 0 := zpow_ne_zero _ (by norm_num)
  have hdivisor : (10 : ℚ) ^ b.exponent ≠ 0 := zpow_ne_zero _ (by norm_num)
  have hpow : (10 : ℚ) ^ (-shift).toNat ≠ 0 := by positivity
  rw [toRat_eq_sign, toRat_eq_sign, zpow_sub₀ (by norm_num), zpow_sub₀ (by norm_num), Nat.cast_mul, Nat.cast_mul,
    Nat.cast_pow, Nat.cast_pow, Nat.cast_ofNat, hshift]
  obtain hb | hb := eq_or_ne (b.coefficient : ℚ) 0
  · rw [hb]
    simp
  · cases a.negative <;> cases b.negative <;>
      simp only [Bool.xor_false, Bool.xor_true, Bool.not_true, Bool.not_false, if_true, if_false,
        Bool.false_eq_true] <;> field_simp

/-- The shift of a quotient leaves more digits than the precision. -/
theorem pow_prec_le_quotient (ctx : Context) {shift : ℤ} (ha : a.coefficient ≠ 0)
    (hshift : shift = digitCount b.coefficient - digitCount a.coefficient + ctx.prec + 1) :
    b.coefficient * 10 ^ (-shift).toNat * 10 ^ ctx.prec ≤ a.coefficient * 10 ^ shift.toNat := by
  have hdividend : 10 ^ (digitCount a.coefficient - 1) ≤ a.coefficient := Nat.pow_log_le_self 10 ha
  have hdivisor : b.coefficient ≤ 10 ^ digitCount b.coefficient := (lt_pow_digitCount _).le
  have hcount := digitCount_pos a.coefficient
  calc b.coefficient * 10 ^ (-shift).toNat * 10 ^ ctx.prec
      ≤ 10 ^ digitCount b.coefficient * 10 ^ (-shift).toNat * 10 ^ ctx.prec := by gcongr
    _ = 10 ^ (digitCount a.coefficient - 1) * 10 ^ shift.toNat := by
        rw [← Nat.pow_add, ← Nat.pow_add, ← Nat.pow_add]
        congr 1
        omega
    _ ≤ a.coefficient * 10 ^ shift.toNat := Nat.mul_le_mul_right _ hdividend

/-- A quotient is exact, or it has a digit more than the precision and is less than a unit of it away. -/
theorem quotient_near (ctx : Context) (ha : a.coefficient ≠ 0) (hb : b.coefficient ≠ 0) :
    (quotient ctx a b).toRat = a.toRat / b.toRat ∨
      |(quotient ctx a b).toRat - a.toRat / b.toRat| < 10 ^ (quotient ctx a b).exponent ∧
        10 ^ ctx.prec ≤ (quotient ctx a b).coefficient := by
  obtain ⟨shift, hshift⟩ : ∃ shift : ℤ,
    shift = digitCount b.coefficient - digitCount a.coefficient + ctx.prec + 1 := ⟨_, rfl⟩
  have hsize := pow_prec_le_quotient (a := a) ctx ha hshift
  rw [toRat_div_toRat a b shift]
  simp only [quotient, if_neg ha, ← hshift]
  generalize hn : a.coefficient * 10 ^ shift.toNat = n at hsize ⊢
  generalize hm : b.coefficient * 10 ^ (-shift).toNat = m at hsize ⊢
  have hmpos : 0 < m := by
    rw [← hm]
    positivity
  have hmpos' : (0 : ℚ) < m := by exact_mod_cast hmpos
  have hdiv : (n : ℚ) = (n / m : ℕ) * m + (n % m : ℕ) := by exact_mod_cast (Nat.div_add_mod' n m).symm
  obtain ⟨sign, hsign, habs⟩ : ∃ sign : ℚ,
    (if xor a.negative b.negative then -1 else 1) = sign ∧ |sign| = 1 := ⟨_, rfl, by split_ifs <;> norm_num⟩
  by_cases hexact : n % m = 0
  · left
    rw [if_pos hexact, toRat_dropZeros, toRat_eq_sign, hdiv, hexact, Nat.cast_zero, add_zero,
      mul_div_cancel_right₀ _ hmpos'.ne']
  · right
    have hrest : (0 : ℚ) < (n % m : ℕ) := by exact_mod_cast Nat.pos_of_ne_zero hexact
    have hrestLt : ((n % m : ℕ) : ℚ) < m := by exact_mod_cast Nat.mod_lt n hmpos
    have hquotient : (n : ℚ) / m = (n / m : ℕ) + (n % m : ℕ) / m := by
      rw [div_eq_iff hmpos'.ne', add_mul, div_mul_cancel₀ _ hmpos'.ne']
      exact hdiv
    have hpart : 0 < ((n % m : ℕ) : ℚ) / m := div_pos hrest hmpos'
    have hpartLt : ((n % m : ℕ) : ℚ) / m < 1 := (div_lt_one hmpos').mpr hrestLt
    have hdigits : 10 ^ ctx.prec ≤ n / m := (Nat.le_div_iff_mul_le hmpos).mpr (by rw [mul_comm]; exact hsize)
    obtain ⟨coefficient, hcoefficient⟩ : ∃ coefficient,
      (if n / m % 5 = 0 then n / m + 1 else n / m) = coefficient := ⟨_, rfl⟩
    have hle : n / m ≤ coefficient ∧ coefficient ≤ n / m + 1 := by
      rw [← hcoefficient]
      split_ifs <;> omega
    have hlow : ((n / m : ℕ) : ℚ) ≤ coefficient := by exact_mod_cast hle.1
    have hhigh : (coefficient : ℚ) ≤ (n / m : ℕ) + 1 := by exact_mod_cast hle.2
    have hstep : (0 : ℚ) < 10 ^ (a.exponent - b.exponent - shift) := zpow_pos (by norm_num) _
    rw [if_neg hexact, hcoefficient]
    refine ⟨?_, hdigits.trans hle.1⟩
    rw [toRat_eq_sign, hsign, ← sub_mul, ← mul_sub, abs_mul, abs_mul, habs, one_mul, abs_of_pos hstep, hquotient]
    apply mul_lt_of_lt_one_left hstep
    rw [abs_lt]
    constructor <;> linarith

/-- The quotient is at most twice as large as the exact one, and off by less than half a step of its rounding. -/
theorem quotient_bounds (ctx : Context) (ha : a.coefficient ≠ 0) (hb : b.coefficient ≠ 0) :
    (quotient ctx a b).coefficient ≠ 0 ∧ |(quotient ctx a b).toRat| ≤ 2 * |a.toRat / b.toRat| ∧
      2 * |(quotient ctx a b).toRat - a.toRat / b.toRat| < 10 ^ (quotient ctx a b).roundedExponent ctx := by
  have hstep : (0 : ℚ) < 10 ^ (quotient ctx a b).roundedExponent ctx := zpow_pos (by norm_num) _
  obtain hexact | ⟨hnear, hdigits⟩ := quotient_near ctx ha hb
  · have hne : a.toRat / b.toRat ≠ 0 :=
      div_ne_zero (toRat_eq_zero_iff.not.mpr ha) (toRat_eq_zero_iff.not.mpr hb)
    refine ⟨toRat_eq_zero_iff.not.mp (hexact ▸ hne), ?_⟩
    rw [hexact, sub_self, abs_zero, mul_zero]
    exact ⟨by linarith [abs_nonneg (a.toRat / b.toRat)], hstep⟩
  · generalize quotient ctx a b = q at hstep hnear hdigits ⊢
    have hunit : (0 : ℚ) < 10 ^ q.exponent := zpow_pos (by norm_num) _
    have hcount : ctx.prec < digitCount q.coefficient := by
      rw [← Nat.not_le, digitCount_le_iff ctx.prec_pos]
      omega
    have hcoefficient : 10 ≤ q.coefficient :=
      le_trans (Nat.le_self_pow (Nat.pos_iff_ne_zero.mp ctx.prec_pos) 10) hdigits
    refine ⟨by omega, ?_, ?_⟩
    · have hten : (10 : ℚ) * 10 ^ q.exponent ≤ |q.toRat| := by
        rw [abs_toRat]
        exact mul_le_mul_of_nonneg_right (by exact_mod_cast hcoefficient) hunit.le
      have htriangle := abs_sub_abs_le_abs_sub q.toRat (a.toRat / b.toRat)
      linarith
    · have hexponent : q.exponent + 1 ≤ q.roundedExponent ctx := le_max_of_le_left (by omega)
      have hpow : (10 : ℚ) ^ (q.exponent + 1) ≤ 10 ^ q.roundedExponent ctx := zpow_le_zpow_right₀ (by norm_num) hexponent
      rw [zpow_add₀ (by norm_num), zpow_one] at hpow
      linarith

/-- A number that stands for a value, with at most so many places after the point. -/
structure HasValue (ctx : Context) (places : ℕ) (d : DecimalFloat) (value : ℚ) : Prop where
  toRat_eq : d.toRat = value
  etiny_le : ctx.etiny ≤ d.exponent
  neg_places_le : -(places : ℤ) ≤ d.exponent

namespace HasValue

variable {places : ℕ} {x y : ℚ}

theorem exists_mul_eq (h : d.HasValue ctx places x) : ∃ k : ℤ, x * 10 ^ places = k := by
  refine ⟨d.significandAt (-places), ?_⟩
  have hpow : (10 : ℚ) ^ (-(places : ℤ)) * 10 ^ places = 1 := by
    rw [zpow_neg, zpow_natCast, inv_mul_cancel₀ (by positivity)]
  rw [← h.toRat_eq, toRat_eq_significandAt h.neg_places_le, mul_assoc, hpow, mul_one]

/-- A result with fewer digits than the precision is exact. -/
theorem fix (h : d.HasValue ctx places x) (hctx : ctx.Wide) (hsize : |x| * 10 ^ places < 10 ^ ctx.prec) :
    ∃ result, DecimalFloat.fix ctx d = some result ∧ result.HasValue ctx places x := by
  have hemax := hctx.prec_le_emax
  have hetiny := h.etiny_le
  have hplaces := h.neg_places_le
  by_cases hc : d.coefficient = 0
  · refine ⟨_, by rw [DecimalFloat.fix, if_pos hc], ?_, ?_, ?_⟩
    · rw [← h.toRat_eq, toRat_eq_zero_iff.mpr hc]
      exact toRat_eq_zero_iff.mpr hc
    · exact le_min (le_max_right _ _) ctx.etiny_le_emax
    · exact le_min (hplaces.trans (le_max_left _ _)) (by omega)
  · have hone : (1 : ℚ) ≤ 10 ^ places := one_le_pow₀ (by norm_num)
    have hlt : |d.toRat| < 10 ^ (ctx.prec : ℤ) := by
      rw [h.toRat_eq, zpow_natCast]
      exact (le_mul_of_one_le_right (abs_nonneg x) hone).trans_lt hsize
    have hadjusted := adjusted_lt hc hlt
    have hcount := digitCount_pos d.coefficient
    rw [adjusted] at hadjusted
    have hwithin : d.Within ctx |x| places := ⟨hetiny, by omega, hplaces, by rw [h.toRat_eq]⟩
    exact ⟨d, fix_of_fits (hwithin.fits hsize hemax), h⟩

theorem add (ha : a.HasValue ctx places x) (hb : b.HasValue ctx places y) (hctx : ctx.Wide)
    (hsize : |x + y| * 10 ^ places < 10 ^ ctx.prec) :
    ∃ sum, DecimalFloat.add ctx a b = some sum ∧ sum.HasValue ctx places (x + y) := by
  have hexact : (a.exactAdd b).HasValue ctx places (x + y) := by
    refine ⟨?_, ?_, ?_⟩
    · rw [toRat_exactAdd, ha.toRat_eq, hb.toRat_eq]
    · exact le_min ha.etiny_le hb.etiny_le
    · exact le_min ha.neg_places_le hb.neg_places_le
  exact hexact.fix hctx hsize

theorem negate (h : d.HasValue ctx places x) : d.negate.HasValue ctx places (-x) := by
  refine ⟨?_, h.etiny_le, h.neg_places_le⟩
  rw [toRat_negate, h.toRat_eq]

theorem sub (ha : a.HasValue ctx places x) (hb : b.HasValue ctx places y) (hctx : ctx.Wide)
    (hsize : |x - y| * 10 ^ places < 10 ^ ctx.prec) :
    ∃ difference, DecimalFloat.sub ctx a b = some difference ∧ difference.HasValue ctx places (x - y) := by
  rw [sub_eq_add_neg] at hsize ⊢
  exact ha.add hb.negate hctx hsize

theorem neg (h : d.HasValue ctx places x) (hctx : ctx.Wide) (hsize : |x| * 10 ^ places < 10 ^ ctx.prec) :
    ∃ result, DecimalFloat.neg ctx d = some result ∧ result.HasValue ctx places (-x) := by
  have hnegated : (if d.coefficient = 0 then { d with negative := false } else d.negate).HasValue ctx places (-x) := by
    split_ifs with hc
    · have hzero : x = 0 := by rw [← h.toRat_eq, toRat_eq_zero_iff.mpr hc]
      refine ⟨?_, h.etiny_le, h.neg_places_le⟩
      rw [hzero, neg_zero]
      exact toRat_eq_zero_iff.mpr hc
    · exact h.negate
  exact hnegated.fix hctx (by rwa [abs_neg])

theorem mul (ha : a.HasValue ctx places x) (hb : b.toRat = y) (hexp : 0 ≤ b.exponent) (hctx : ctx.Wide)
    (hsize : |x * y| * 10 ^ places < 10 ^ ctx.prec) :
    ∃ product, DecimalFloat.mul ctx a b = some product ∧ product.HasValue ctx places (x * y) := by
  have hexact : HasValue ctx places
      ⟨xor a.negative b.negative, a.coefficient * b.coefficient, a.exponent + b.exponent⟩ (x * y) := by
    refine ⟨?_, ?_, ?_⟩
    · rw [toRat_product, ha.toRat_eq, hb]
    · exact ha.etiny_le.trans (le_add_of_nonneg_right hexp)
    · exact ha.neg_places_le.trans (le_add_of_nonneg_right hexp)
  exact hexact.fix hctx hsize

theorem toIntegral (hctx : ctx.Wide) (places : ℕ) (rounding : Rounding) {n : ℤ}
    (h : (d.toIntegral rounding).toRat = n) : (d.toIntegral rounding).HasValue ctx places n := by
  have hexponent := exponent_toIntegral_nonneg rounding d
  have hetiny := hctx.etiny_le
  exact ⟨h, by omega, by omega⟩

/-- The rounding of a quotient with some digits to spare is finer than the denominator. -/
theorem rounded_grid (hctx : ctx.Wide) {n : ℕ} (hne : d.coefficient ≠ 0) (hle : |d.toRat| ≤ 2 * |x / n|)
    (hn : (0 : ℚ) < n) (hnle : (n : ℚ) ≤ 10 ^ ctx.prec) (hplaces : places ≤ ctx.prec)
    (hsize : 20 * |x| * 10 ^ places ≤ 10 ^ ctx.prec) :
    (10 : ℚ) ^ d.roundedExponent ctx * (n * 10 ^ places : ℕ) ≤ 1 := by
  have hprec : (0 : ℚ) < 10 ^ ctx.prec := by positivity
  have hpow : (0 : ℚ) < 10 ^ places := by positivity
  push_cast
  rw [roundedExponent]
  obtain hmax | hmax := max_choice (digitCount d.coefficient + d.exponent - ctx.prec : ℤ) ctx.etiny
  · have hexponent : (digitCount d.coefficient + d.exponent - ctx.prec : ℤ) = d.adjusted + 1 - ctx.prec := by
      rw [adjusted]
      omega
    have hadjusted := (pow_adjusted_le hne).trans hle
    rw [abs_div, Nat.abs_cast, ← mul_div_assoc, le_div_iff₀ hn] at hadjusted
    rw [hmax, hexponent, zpow_sub₀ (by norm_num), zpow_add₀ (by norm_num), zpow_one, zpow_natCast, div_mul_eq_mul_div,
      div_le_one hprec]
    calc (10 : ℚ) ^ d.adjusted * 10 * (n * 10 ^ places)
        = 10 ^ d.adjusted * n * (10 * 10 ^ places) := by ring
      _ ≤ 2 * |x| * (10 * 10 ^ places) := mul_le_mul_of_nonneg_right hadjusted (by positivity)
      _ = 20 * |x| * 10 ^ places := by ring
      _ ≤ 10 ^ ctx.prec := hsize
  · have hetiny : (10 : ℚ) ^ ctx.etiny ≤ 10 ^ (-(2 * ctx.prec) : ℤ) :=
      zpow_le_zpow_right₀ (by norm_num) hctx.etiny_le
    have hplacesLe : (10 : ℚ) ^ places ≤ 10 ^ ctx.prec := pow_le_pow_right₀ (by norm_num) hplaces
    have hproduct : (n : ℚ) * 10 ^ places ≤ 10 ^ ctx.prec * 10 ^ ctx.prec :=
      mul_le_mul hnle hplacesLe hpow.le hprec.le
    have hcancel : (10 : ℚ) ^ (-(2 * ctx.prec) : ℤ) * (10 ^ ctx.prec * 10 ^ ctx.prec) = 1 := by
      rw [← pow_add, ← two_mul, zpow_neg]
      exact inv_mul_cancel₀ (by positivity)
    rw [hmax]
    calc (10 : ℚ) ^ ctx.etiny * (n * 10 ^ places)
        ≤ 10 ^ (-(2 * ctx.prec) : ℤ) * (10 ^ ctx.prec * 10 ^ ctx.prec) :=
          mul_le_mul hetiny hproduct (by positivity) (zpow_nonneg (by norm_num) _)
      _ = 1 := hcancel

/-- The floor of a quotient with some digits to spare is that of the exact quotient. -/
theorem div_floor (ha : a.HasValue ctx places x) {n : ℕ} (hb : b.toRat = n) (hn : 0 < n) (hnle : n ≤ 10 ^ ctx.prec)
    (hplaces : places ≤ ctx.prec) (hctx : ctx.Wide) (hsize : 20 * |x| * 10 ^ places ≤ 10 ^ ctx.prec) :
    ∃ quotient, div ctx a b = some quotient ∧ (quotient.toIntegral .floor).HasValue ctx places ⌊x / n⌋ := by
  have hn' : (0 : ℚ) < n := by exact_mod_cast hn
  have hbne : b.coefficient ≠ 0 := by
    intro hzero
    rw [toRat_eq_zero_iff.mpr hzero] at hb
    exact hn'.ne hb
  rw [div, if_neg hbne]
  by_cases hane : a.coefficient = 0
  · have hx : x = 0 := by rw [← ha.toRat_eq, toRat_eq_zero_iff.mpr hane]
    rw [quotient, if_pos hane, DecimalFloat.fix, if_pos rfl]
    refine ⟨_, rfl, .toIntegral hctx places .floor ?_⟩
    rw [toRat_toIntegral_floor, toRat_eq_zero_iff.mpr rfl, hx, zero_div]
  · obtain ⟨hqne, hle, hnear⟩ := quotient_bounds ctx hane hbne
    rw [ha.toRat_eq, hb] at hle hnear
    generalize quotient ctx a b = q at hqne hle hnear ⊢
    have hone : (1 : ℚ) ≤ 10 ^ places := one_le_pow₀ (by norm_num)
    have hprec : (0 : ℚ) < 10 ^ ctx.prec := by positivity
    have hgrid : (10 : ℚ) ^ q.roundedExponent ctx * (n * 10 ^ places : ℕ) ≤ 1 :=
      rounded_grid hctx hqne hle hn' (by exact_mod_cast hnle) hplaces hsize
    have hlt : |q.toRat| < 10 ^ (ctx.prec : ℤ) := by
      have hnone : (1 : ℚ) ≤ n := by exact_mod_cast hn
      have hdiv : |x / n| ≤ |x| := by
        rw [abs_div, Nat.abs_cast]
        exact div_le_self (abs_nonneg x) hnone
      have hmul : |x| ≤ |x| * 10 ^ places := le_mul_of_one_le_right (abs_nonneg x) hone
      have hnonneg := abs_nonneg x
      rw [zpow_natCast]
      linarith
    obtain ⟨result, hresult⟩ := exists_fix hctx fun hne => (adjusted_lt hne hlt).trans_le hctx.prec_le_emax
    obtain ⟨⟨steps, hsteps⟩, hrounded⟩ := fix_near hresult
    obtain ⟨k, hk⟩ := ha.exists_mul_eq
    have hfloor : ⌊result.toRat⌋ = ⌊x / n⌋ := by
      refine floor_eq_of_near hsteps ?_ (k := k) ?_ (by positivity) hgrid
      · have htriangle := abs_sub_le result.toRat q.toRat (x / n)
        linarith
      · rw [Nat.cast_mul, ← mul_assoc, div_mul_cancel₀ _ hn'.ne']
        exact_mod_cast hk
    refine ⟨result, hresult, .toIntegral hctx places .floor ?_⟩
    rw [toRat_toIntegral_floor, hfloor]

end HasValue

end DecimalFloat

end solution_library.decimal_float
