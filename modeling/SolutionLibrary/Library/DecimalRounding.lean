import Mathlib.Data.Rat.Floor
import SolutionLibrary.Library.DecimalFloat

namespace solution_library.decimal_float

/-- How a number is rounded to an integer. -/
inductive Rounding where
  | floor
  | down
  | halfUp

/-- A quotient by a power of ten, rounded to an integer next to it. -/
def Rounding.quotient (rounding : Rounding) (negative : Bool) (n k : ℕ) : ℕ :=
  match rounding with
  | .floor => if negative ∧ 0 < n % 10 ^ k then n / 10 ^ k + 1 else n / 10 ^ k
  | .down => n / 10 ^ k
  | .halfUp => if 10 ^ k ≤ 2 * (n % 10 ^ k) then n / 10 ^ k + 1 else n / 10 ^ k

namespace DecimalFloat

def toIntegral (rounding : Rounding) (d : DecimalFloat) : DecimalFloat :=
  if 0 ≤ d.exponent then d
  else ⟨d.negative, rounding.quotient d.negative d.coefficient (-d.exponent).toNat, 0⟩

/-- The integer part. -/
def toInt (d : DecimalFloat) : ℤ :=
  if 0 ≤ d.exponent then d.significandAt 0 else d.significand.tdiv (10 ^ (-d.exponent).toNat)

end DecimalFloat

/-- The exponents of a context reach well beyond its precision. -/
structure Context.Wide (ctx : Context) : Prop where
  prec_le_emax : (ctx.prec : ℤ) ≤ ctx.emax
  etiny_le : ctx.etiny ≤ -(2 * ctx.prec)

namespace Rounding

variable (rounding : Rounding) (negative : Bool) (n k : ℕ)

theorem quotient_eq_or : rounding.quotient negative n k = n / 10 ^ k ∨
    rounding.quotient negative n k = n / 10 ^ k + 1 ∧ 0 < n % 10 ^ k := by
  have hpow : 0 < 10 ^ k := Nat.pow_pos (by decide)
  cases rounding with
  | floor =>
    rw [quotient]
    split_ifs with h
    · exact .inr ⟨rfl, h.2⟩
    · exact .inl rfl
  | down => exact .inl rfl
  | halfUp =>
    rw [quotient]
    split_ifs with h
    · exact .inr ⟨rfl, by omega⟩
    · exact .inl rfl

/-- The rounded quotient is less than one away. -/
theorem abs_quotient_sub_lt : |(rounding.quotient negative n k : ℚ) - n / 10 ^ k| < 1 := by
  have hpos : (0 : ℚ) < 10 ^ k := by positivity
  have hdiv : (n : ℚ) = (n / 10 ^ k : ℕ) * 10 ^ k + (n % 10 ^ k : ℕ) := by
    exact_mod_cast (Nat.div_add_mod' n (10 ^ k)).symm
  have hrest : ((n % 10 ^ k : ℕ) : ℚ) < 10 ^ k := by exact_mod_cast Nat.mod_lt n (by positivity)
  have hquotient : (n : ℚ) / 10 ^ k = (n / 10 ^ k : ℕ) + (n % 10 ^ k : ℕ) / 10 ^ k := by
    rw [div_eq_iff hpos.ne', add_mul, div_mul_cancel₀ _ hpos.ne']
    exact hdiv
  have hlt : ((n % 10 ^ k : ℕ) : ℚ) / 10 ^ k < 1 := (div_lt_one hpos).mpr hrest
  have hnonneg : 0 ≤ ((n % 10 ^ k : ℕ) : ℚ) / 10 ^ k := by positivity
  rw [hquotient, abs_lt]
  obtain h | ⟨h, hrestPos⟩ := quotient_eq_or rounding negative n k
  · rw [h]
    constructor <;> linarith
  · have hpositive : 0 < ((n % 10 ^ k : ℕ) : ℚ) / 10 ^ k := div_pos (by exact_mod_cast hrestPos) hpos
    rw [h]
    push_cast
    constructor <;> linarith

end Rounding

namespace DecimalFloat

variable {ctx : Context} {a b d result : DecimalFloat}

theorem toRat_of_nonneg (h : 0 ≤ d.exponent) : d.toRat = d.significandAt 0 := by
  rw [toRat_eq_significandAt h, zpow_zero, mul_one]

theorem toRat_of_neg (h : ¬0 ≤ d.exponent) : d.toRat = d.significand / 10 ^ (-d.exponent).toNat := by
  have hexponent : d.exponent = -((-d.exponent).toNat : ℤ) := by omega
  rw [toRat]
  conv_lhs => rw [hexponent, zpow_neg, zpow_natCast]
  exact (div_eq_mul_inv _ _).symm

theorem significand_eq (d : DecimalFloat) : d.significand = (if d.negative then -1 else 1) * d.coefficient := by
  rw [significand]
  split_ifs
  · rw [neg_one_mul]
  · rw [one_mul]

theorem toRat_natural (negative : Bool) (n : ℕ) :
    toRat ⟨negative, n, 0⟩ = (((if negative then -1 else 1) * n : ℤ) : ℚ) := by
  rw [toRat, zpow_zero, mul_one, significand_eq]

/-- A number is less than one away from the integer to which it is rounded. -/
theorem exists_toRat_toIntegral (rounding : Rounding) (d : DecimalFloat) :
    ∃ n : ℤ, (d.toIntegral rounding).toRat = n ∧ |(n : ℚ) - d.toRat| < 1 := by
  rw [toIntegral]
  split_ifs with hexp
  · exact ⟨d.significandAt 0, toRat_of_nonneg hexp, by rw [toRat_of_nonneg hexp, sub_self, abs_zero]; exact one_pos⟩
  · refine ⟨_, toRat_natural _ _, ?_⟩
    have hsign : |((if d.negative then -1 else 1 : ℤ) : ℚ)| = 1 := by split_ifs <;> norm_num
    rw [toRat_of_neg hexp, significand_eq, Int.cast_mul, Int.cast_mul, mul_div_assoc, ← mul_sub, abs_mul, hsign,
      one_mul, Int.cast_natCast, Int.cast_natCast]
    exact rounding.abs_quotient_sub_lt _ _ _

/-- An integer is not changed. -/
theorem toRat_toIntegral (rounding : Rounding) {n : ℤ} (h : d.toRat = n) : (d.toIntegral rounding).toRat = n := by
  obtain ⟨m, hm, hlt⟩ := exists_toRat_toIntegral rounding d
  rw [h] at hlt
  have hint : |m - n| < 1 := by exact_mod_cast hlt
  rw [hm, sub_eq_zero.mp (Int.abs_lt_one_iff.mp hint)]

theorem rounded_floor_mul_le (negative : Bool) (n k : ℕ) :
    (if negative then -1 else 1) * (Rounding.floor.quotient negative n k : ℤ) * 10 ^ k ≤
      (if negative then -1 else 1) * (n : ℤ) := by
  have hpow : (0 : ℤ) < 10 ^ k := by positivity
  have hdiv : (n : ℤ) = (n / 10 ^ k : ℕ) * 10 ^ k + (n % 10 ^ k : ℕ) := by
    exact_mod_cast (Nat.div_add_mod' n (10 ^ k)).symm
  have hrest : ((n % 10 ^ k : ℕ) : ℤ) < 10 ^ k := by exact_mod_cast Nat.mod_lt n (by positivity)
  generalize hq : ((n / 10 ^ k : ℕ) : ℤ) = q at hdiv
  cases negative with
  | false =>
    have hquotient : Rounding.floor.quotient false n k = n / 10 ^ k := by simp [Rounding.quotient]
    rw [hquotient, hq]
    simp only [Bool.false_eq_true, if_false, one_mul]
    omega
  | true =>
    simp only [if_true, neg_mul, one_mul, neg_le_neg_iff]
    obtain hzero | hpos := Nat.eq_zero_or_pos (n % 10 ^ k)
    · have hquotient : Rounding.floor.quotient true n k = n / 10 ^ k := by simp [Rounding.quotient, hzero]
      rw [hquotient, hq, hdiv, hzero, Nat.cast_zero, add_zero]
    · have hquotient : Rounding.floor.quotient true n k = n / 10 ^ k + 1 := by simp [Rounding.quotient, hpos]
      rw [hquotient, Nat.cast_add, hq, Nat.cast_one, add_mul, one_mul]
      omega

theorem toRat_toIntegral_floor (d : DecimalFloat) : (d.toIntegral .floor).toRat = ⌊d.toRat⌋ := by
  obtain ⟨m, hm, hlt⟩ := exists_toRat_toIntegral .floor d
  have hle : (d.toIntegral .floor).toRat ≤ d.toRat := by
    rw [toIntegral]
    split_ifs with hexp
    · exact le_rfl
    · have hpos : (0 : ℚ) < 10 ^ (-d.exponent).toNat := by positivity
      rw [toRat_natural, toRat_of_neg hexp, significand_eq, le_div_iff₀ hpos]
      exact_mod_cast rounded_floor_mul_le d.negative d.coefficient (-d.exponent).toNat
  rw [hm] at hle ⊢
  rw [abs_lt] at hlt
  have hfloor : ⌊d.toRat⌋ = m := Int.floor_eq_iff.mpr ⟨hle, by linarith⟩
  rw [hfloor]

theorem exponent_toIntegral_nonneg (rounding : Rounding) (d : DecimalFloat) : 0 ≤ (d.toIntegral rounding).exponent := by
  rw [toIntegral]
  split_ifs with hexp
  · exact hexp
  · exact le_rfl

/-- The integer part of an integer. -/
theorem toInt_eq {n : ℤ} (h : d.toRat = n) : d.toInt = n := by
  rw [toInt]
  split_ifs with hexp
  · rw [toRat_of_nonneg hexp] at h
    exact_mod_cast h
  · have hpos : (0 : ℚ) < 10 ^ (-d.exponent).toNat := by positivity
    rw [toRat_of_neg hexp, div_eq_iff hpos.ne'] at h
    have hmul : d.significand = n * 10 ^ (-d.exponent).toNat := by exact_mod_cast h
    rw [hmul, Int.mul_tdiv_cancel _ (by positivity)]

theorem toRat_eq_sign (d : DecimalFloat) :
    d.toRat = (if d.negative then -1 else 1) * d.coefficient * 10 ^ d.exponent := by
  rw [toRat, significand_eq]
  push_cast
  rfl

/-- A rounded coefficient is at most half a unit away. -/
theorem roundHalfEven_near (n k : ℕ) : 2 * |(roundHalfEven n k : ℚ) * 10 ^ k - n| ≤ 10 ^ k := by
  have hdiv : (n : ℚ) = (n / 10 ^ k : ℕ) * 10 ^ k + (n % 10 ^ k : ℕ) := by
    exact_mod_cast (Nat.div_add_mod' n (10 ^ k)).symm
  have hrest : ((n % 10 ^ k : ℕ) : ℚ) < 10 ^ k := by exact_mod_cast Nat.mod_lt n (by positivity)
  have hnonneg : 0 ≤ ((n % 10 ^ k : ℕ) : ℚ) := Nat.cast_nonneg _
  rw [roundHalfEven]
  split_ifs with h
  · have hhalf : (10 : ℚ) ^ k ≤ 2 * (n % 10 ^ k : ℕ) := by
      have hle : 10 ^ k ≤ 2 * (n % 10 ^ k) := h.elim le_of_lt fun heq => heq.1.le
      exact_mod_cast hle
    push_cast
    rw [abs_of_nonneg (by linarith)]
    linarith
  · have hhalf : 2 * ((n % 10 ^ k : ℕ) : ℚ) ≤ 10 ^ k := by
      have hle : 2 * (n % 10 ^ k) ≤ 10 ^ k := by
        by_contra hlt
        exact h (.inl (Nat.lt_of_not_le hlt))
      exact_mod_cast hle
    rw [abs_of_nonpos (by linarith)]
    linarith

theorem toRat_round {exponent : ℤ} (hexp : digitCount d.coefficient + d.exponent - ctx.prec ≤ exponent)
    (hlt : d.exponent < exponent) : (d.round ctx exponent).toRat =
      (if d.negative then -1 else 1) * roundHalfEven d.coefficient (exponent - d.exponent).toNat * 10 ^ exponent := by
  have hle : roundHalfEven d.coefficient (exponent - d.exponent).toNat ≤ 10 ^ ctx.prec := by
    apply roundHalfEven_le
    exact (lt_pow_digitCount d.coefficient).trans_le (Nat.pow_le_pow_right (by decide) (by omega))
  by_cases hcarry : ctx.prec < digitCount (roundHalfEven d.coefficient (exponent - d.exponent).toNat)
  · -- the coefficient is the power of ten above the precision
    have hpower : roundHalfEven d.coefficient (exponent - d.exponent).toNat = 10 ^ (ctx.prec - 1) * 10 := by
      rw [← Nat.pow_succ, Nat.succ_eq_add_one, Nat.sub_add_cancel ctx.prec_pos]
      rw [← Nat.not_le, digitCount_le_iff ctx.prec_pos] at hcarry
      omega
    rw [round, if_pos hcarry, toRat_eq_sign]
    simp only [hpower]
    rw [Nat.mul_div_cancel _ (by decide), zpow_add₀ (by norm_num), zpow_one]
    push_cast
    ring
  · rw [round, if_neg hcarry, toRat_eq_sign]

/-- The result of an operation is a number of the grid of the rounded exponent, at most half a step away. -/
theorem fix_near (h : fix ctx d = some result) : (∃ n : ℤ, result.toRat = n * 10 ^ d.roundedExponent ctx) ∧
    2 * |result.toRat - d.toRat| ≤ 10 ^ d.roundedExponent ctx := by
  have hpos : (0 : ℚ) < 10 ^ d.roundedExponent ctx := zpow_pos (by norm_num) _
  rw [fix] at h
  split_ifs at h with hc hover hround hcarry
  · cases h
    have hzero (exponent : ℤ) : toRat ⟨d.negative, d.coefficient, exponent⟩ = 0 := toRat_eq_zero_iff.mpr hc
    refine ⟨⟨0, by rw [hzero, Int.cast_zero, zero_mul]⟩, ?_⟩
    rw [hzero, toRat_eq_zero_iff.mpr hc, sub_zero, abs_zero, mul_zero]
    exact hpos.le
  · cases h
    refine ⟨⟨_, toRat_eq_significandAt hround⟩, ?_⟩
    rw [sub_self, abs_zero, mul_zero]
    exact hpos.le
  · cases h
    rw [not_le] at hround
    have hdigits : digitCount d.coefficient + d.exponent - ctx.prec ≤ d.roundedExponent ctx := le_max_left _ _
    rw [toRat_round hdigits hround]
    refine ⟨⟨(if d.negative then -1 else 1) * (roundHalfEven d.coefficient (d.roundedExponent ctx - d.exponent).toNat :
      ℤ), by push_cast; rfl⟩, ?_⟩
    have hsplit : (10 : ℚ) ^ d.roundedExponent ctx =
        10 ^ (d.roundedExponent ctx - d.exponent).toNat * 10 ^ d.exponent := by
      rw [← zpow_natCast, ← zpow_add₀ (by norm_num)]
      congr 1
      omega
    have hsign : |(if d.negative then -1 else 1 : ℚ)| = 1 := by split_ifs <;> norm_num
    have hexponent : (0 : ℚ) < 10 ^ d.exponent := zpow_pos (by norm_num) _
    calc 2 * |(if d.negative then -1 else 1) *
            (roundHalfEven d.coefficient (d.roundedExponent ctx - d.exponent).toNat : ℚ) *
              10 ^ d.roundedExponent ctx - d.toRat|
        = 2 * |(roundHalfEven d.coefficient (d.roundedExponent ctx - d.exponent).toNat : ℚ) *
            10 ^ (d.roundedExponent ctx - d.exponent).toNat - d.coefficient| * 10 ^ d.exponent := by
          rw [hsplit, toRat_eq_sign, mul_assoc, mul_assoc, ← mul_sub, abs_mul, hsign, one_mul, ← mul_assoc, ← sub_mul,
            abs_mul, abs_of_pos hexponent, mul_assoc]
      _ ≤ 10 ^ (d.roundedExponent ctx - d.exponent).toNat * 10 ^ d.exponent :=
          mul_le_mul_of_nonneg_right (roundHalfEven_near _ _) hexponent.le
      _ = 10 ^ d.roundedExponent ctx := hsplit.symm

theorem pow_adjusted_le (hc : d.coefficient ≠ 0) : (10 : ℚ) ^ d.adjusted ≤ |d.toRat| := by
  have hlog : 10 ^ (digitCount d.coefficient - 1) ≤ d.coefficient := Nat.pow_log_le_self 10 hc
  have hexponent : d.adjusted = (digitCount d.coefficient - 1 : ℕ) + d.exponent := by
    have hcount := digitCount_pos d.coefficient
    rw [adjusted]
    omega
  rw [abs_toRat, hexponent, zpow_add₀ (by norm_num), zpow_natCast]
  have hcast : (10 : ℚ) ^ (digitCount d.coefficient - 1) ≤ d.coefficient := by exact_mod_cast hlog
  exact mul_le_mul_of_nonneg_right hcast (zpow_nonneg (by norm_num) _)

theorem adjusted_lt {n : ℤ} (hc : d.coefficient ≠ 0) (h : |d.toRat| < 10 ^ n) : d.adjusted < n :=
  (zpow_lt_zpow_iff_right₀ (by norm_num)).mp ((pow_adjusted_le hc).trans_lt h)

/-- An operation whose result is below the largest power of ten does not overflow. -/
theorem exists_fix (hctx : ctx.Wide) (h : d.coefficient ≠ 0 → d.adjusted < ctx.emax) :
    ∃ result, fix ctx d = some result := by
  have hemax := hctx.prec_le_emax
  have hetiny := hctx.etiny_le
  rw [fix]
  split_ifs with hc hover hround hcarry
  · exact ⟨_, rfl⟩
  · have hadjusted := h hc
    rw [adjusted] at hadjusted
    rw [Context.etop] at hover
    omega
  · exact ⟨_, rfl⟩
  · have hadjusted := h hc
    have hexponent : (d.round ctx (d.roundedExponent ctx)).exponent ≤ d.roundedExponent ctx + 1 := by
      rw [round]
      split_ifs
      · exact le_rfl
      · exact (lt_add_one _).le
    rw [Context.etop] at hcarry
    rw [adjusted] at hadjusted
    have hrounded : d.roundedExponent ctx ≤ ctx.emax - ctx.prec := max_le (by omega) (by omega)
    omega
  · exact ⟨_, rfl⟩

/-- A number of a grid that is finer than the denominator of another one, and less than a step away from it, has the
same floor. -/
theorem floor_eq_of_near {x y : ℚ} {k n : ℤ} {exponent : ℤ} {g : ℕ} (hx : x = n * 10 ^ exponent)
    (hnear : |x - y| < 10 ^ exponent) (hy : y * g = k) (hg : 0 < g) (hgrid : (10 : ℚ) ^ exponent * g ≤ 1) :
    ⌊x⌋ = ⌊y⌋ := by
  have hg' : (0 : ℚ) < g := by exact_mod_cast hg
  have hstep : (0 : ℚ) < 10 ^ exponent := zpow_pos (by norm_num) _
  have hexponent : exponent ≤ 0 := by
    by_contra hpos
    have hone : (1 : ℚ) < 10 ^ exponent := one_lt_zpow₀ (by norm_num) (by omega)
    have hgone : (1 : ℚ) ≤ g := by exact_mod_cast hg
    nlinarith
  -- the integers are numbers of the grid
  obtain ⟨steps, hsteps⟩ : ∃ steps : ℤ, (steps : ℚ) * 10 ^ exponent = 1 := by
    refine ⟨10 ^ (-exponent).toNat, ?_⟩
    push_cast
    rw [← zpow_natCast, ← zpow_add₀ (by norm_num)]
    have hzero : ((-exponent).toNat : ℤ) + exponent = 0 := by omega
    rw [hzero, zpow_zero]
  have hinteger (m : ℤ) : (m : ℚ) = (m * steps : ℤ) * 10 ^ exponent := by
    push_cast
    rw [mul_assoc, hsteps, mul_one]
  have hlow : (⌊y⌋ : ℚ) ≤ y := Int.floor_le y
  have hhigh : y < ⌊y⌋ + 1 := Int.lt_floor_add_one y
  rw [abs_lt] at hnear
  rw [Int.floor_eq_iff]
  constructor
  · by_contra hlt
    rw [not_le, hx, hinteger ⌊y⌋, mul_lt_mul_iff_left₀ hstep] at hlt
    have hsucc : n + 1 ≤ ⌊y⌋ * steps := by exact_mod_cast hlt
    have hle : ((n + 1 : ℤ) : ℚ) * 10 ^ exponent ≤ ⌊y⌋ := by
      rw [hinteger ⌊y⌋]
      exact mul_le_mul_of_nonneg_right (by exact_mod_cast hsucc) hstep.le
    push_cast at hle
    rw [add_mul, one_mul, ← hx] at hle
    linarith
  · -- the next integer is at least the denominator's part away
    have hscaled : k < (⌊y⌋ + 1) * g := by
      have hlt := mul_lt_mul_of_pos_right hhigh hg'
      rw [hy] at hlt
      exact_mod_cast hlt
    have hsucc : (k : ℚ) + 1 ≤ (⌊y⌋ + 1) * g := by exact_mod_cast hscaled
    rw [← hy] at hsucc
    have hgap : (y + 10 ^ exponent) * g ≤ (⌊y⌋ + 1) * g := by
      rw [add_mul]
      linarith
    have hle := le_of_mul_le_mul_right hgap hg'
    linarith

end DecimalFloat

end solution_library.decimal_float
