import Mathlib.Algebra.Order.Field.Basic
import Mathlib.Algebra.Order.Field.Power
import Mathlib.Data.Nat.Log
import Mathlib.Data.Rat.Cast.Order
import Mathlib.Tactic.Linarith
import Mathlib.Tactic.Positivity
import Mathlib.Tactic.Ring

namespace solution_library.decimal_float

/-- A finite decimal number: the coefficient times a power of ten. Equal numbers may differ in the exponent, and the
zeros also in the sign. -/
structure DecimalFloat where
  negative : Bool
  coefficient : ℕ
  exponent : ℤ
  deriving DecidableEq, Repr

/-- The precision of the results of operations, and the bounds on their adjusted exponents. -/
structure Context where
  prec : ℕ
  emin : ℤ
  emax : ℤ
  prec_pos : 0 < prec
  emin_le_emax : emin ≤ emax

/-- The number of digits of a coefficient. -/
def digitCount (n : ℕ) : ℕ :=
  Nat.log 10 n + 1

/-- A quotient by a power of ten, rounded to the nearest number and from halves to the even one. -/
def roundHalfEven (n k : ℕ) : ℕ :=
  if 10 ^ k < 2 * (n % 10 ^ k) ∨ 10 ^ k = 2 * (n % 10 ^ k) ∧ n / 10 ^ k % 2 = 1 then n / 10 ^ k + 1
  else n / 10 ^ k

namespace Context

/-- The exponent of the least positive number. -/
def etiny (ctx : Context) : ℤ :=
  ctx.emin - ctx.prec + 1

/-- The largest exponent of a number with all its digits. -/
def etop (ctx : Context) : ℤ :=
  ctx.emax - ctx.prec + 1

theorem etiny_le_emax (ctx : Context) : ctx.etiny ≤ ctx.emax := by
  have hprec := ctx.prec_pos
  have hle := ctx.emin_le_emax
  rw [etiny]
  omega

end Context

namespace DecimalFloat

def zero : DecimalFloat :=
  ⟨false, 0, 0⟩

def ofInt (n : ℤ) : DecimalFloat :=
  ⟨decide (n < 0), n.natAbs, 0⟩

def adjusted (d : DecimalFloat) : ℤ :=
  d.exponent + digitCount d.coefficient - 1

/-- The coefficient with its sign. -/
def significand (d : DecimalFloat) : ℤ :=
  if d.negative then -(d.coefficient : ℤ) else d.coefficient

def toRat (d : DecimalFloat) : ℚ :=
  d.significand * 10 ^ d.exponent

/-- A number that an operation in the context returns as it is. -/
structure Fits (ctx : Context) (d : DecimalFloat) : Prop where
  digitCount_le : digitCount d.coefficient ≤ ctx.prec
  etiny_le : ctx.etiny ≤ d.exponent
  adjusted_le : d.adjusted ≤ ctx.emax

instance (ctx : Context) (d : DecimalFloat) : Decidable (d.Fits ctx) :=
  decidable_of_iff (digitCount d.coefficient ≤ ctx.prec ∧ ctx.etiny ≤ d.exponent ∧ d.adjusted ≤ ctx.emax)
    ⟨fun h => ⟨h.1, h.2.1, h.2.2⟩, fun h => ⟨h.digitCount_le, h.etiny_le, h.adjusted_le⟩⟩

/-- The exponent to which a number is rounded. -/
def roundedExponent (ctx : Context) (d : DecimalFloat) : ℤ :=
  max (digitCount d.coefficient + d.exponent - ctx.prec) ctx.etiny

/-- The number rounded to an exponent above its own. A coefficient that gets one digit more than the context allows
is a power of ten. -/
def round (ctx : Context) (d : DecimalFloat) (exponent : ℤ) : DecimalFloat :=
  let coefficient := roundHalfEven d.coefficient (exponent - d.exponent).toNat
  if ctx.prec < digitCount coefficient then ⟨d.negative, coefficient / 10, exponent + 1⟩
  else ⟨d.negative, coefficient, exponent⟩

/-- The result of an operation whose exact result is `d`; none if it overflows. -/
def fix (ctx : Context) (d : DecimalFloat) : Option DecimalFloat :=
  if d.coefficient = 0 then some { d with exponent := min (max d.exponent ctx.etiny) ctx.emax }
  else if ctx.etop < digitCount d.coefficient + d.exponent - ctx.prec then none
  else if d.roundedExponent ctx ≤ d.exponent then some d
  else if ctx.etop < (d.round ctx (d.roundedExponent ctx)).exponent then none
  else some (d.round ctx (d.roundedExponent ctx))

def mul (ctx : Context) (a b : DecimalFloat) : Option DecimalFloat :=
  fix ctx ⟨xor a.negative b.negative, a.coefficient * b.coefficient, a.exponent + b.exponent⟩

/-- The significand at an exponent that is not above the number's own. -/
def significandAt (d : DecimalFloat) (exponent : ℤ) : ℤ :=
  d.significand * 10 ^ (d.exponent - exponent).toNat

/-- The exact sum. A sum of zeros is negative if both are; a sum of opposite numbers is not. -/
def exactAdd (a b : DecimalFloat) : DecimalFloat :=
  let exponent := min a.exponent b.exponent
  let sum := a.significandAt exponent + b.significandAt exponent
  let negative := if sum = 0 then decide (a.coefficient = 0 ∧ b.coefficient = 0) && a.negative && b.negative
    else decide (sum < 0)
  ⟨negative, sum.natAbs, exponent⟩

def add (ctx : Context) (a b : DecimalFloat) : Option DecimalFloat :=
  fix ctx (a.exactAdd b)

/-- Equality of the numbers. -/
def numEq (a b : DecimalFloat) : Bool :=
  a.significandAt (min a.exponent b.exponent) = b.significandAt (min a.exponent b.exponent)

def toIntegralValue (d : DecimalFloat) : DecimalFloat :=
  if 0 ≤ d.exponent then d else ⟨d.negative, roundHalfEven d.coefficient (-d.exponent).toNat, 0⟩

end DecimalFloat

section digitCount

variable {n k : ℕ}

theorem digitCount_zero : digitCount 0 = 1 := by
  rw [digitCount, Nat.log_zero_right]

theorem digitCount_pos (n : ℕ) : 0 < digitCount n :=
  Nat.succ_pos _

theorem lt_pow_digitCount (n : ℕ) : n < 10 ^ digitCount n :=
  Nat.lt_pow_succ_log_self (by decide) n

theorem digitCount_le_iff (hk : 0 < k) : digitCount n ≤ k ↔ n < 10 ^ k := by
  constructor
  · intro h
    exact (lt_pow_digitCount n).trans_le (Nat.pow_le_pow_right (by decide) h)
  · intro h
    obtain rfl | hn := Nat.eq_zero_or_pos n
    · rw [digitCount_zero]
      exact hk
    · rw [digitCount, Nat.succ_le_iff]
      exact Nat.log_lt_of_lt_pow (by omega) h

/-- A rounded quotient has at most as many digits as remain, or is the power of ten above them. -/
theorem roundHalfEven_le {m : ℕ} (h : n < 10 ^ (m + k)) : roundHalfEven n k ≤ 10 ^ m := by
  have hdiv : n / 10 ^ k < 10 ^ m := by
    apply Nat.div_lt_of_lt_mul
    rwa [← Nat.pow_add, Nat.add_comm]
  rw [roundHalfEven]
  split_ifs
  · exact hdiv
  · exact hdiv.le

/-- A quotient without a remainder is not rounded. -/
theorem roundHalfEven_of_dvd (h : 10 ^ k ∣ n) : roundHalfEven n k = n / 10 ^ k := by
  have hmod : n % 10 ^ k = 0 := Nat.mod_eq_zero_of_dvd h
  have hpow : 0 < 10 ^ k := Nat.pow_pos (by decide)
  rw [roundHalfEven, hmod, if_neg]
  omega

end digitCount

namespace DecimalFloat

variable {ctx : Context} {a b d : DecimalFloat}

theorem fits_of_coefficient_eq_zero (hc : d.coefficient = 0) (hlow : ctx.etiny ≤ d.exponent)
    (hhigh : d.exponent ≤ ctx.emax) : d.Fits ctx := by
  refine ⟨?_, hlow, ?_⟩
  · rw [hc, digitCount_zero]
    exact ctx.prec_pos
  · rw [adjusted, hc, digitCount_zero]
    omega

/-- A number that the context holds is not changed. -/
theorem fix_of_fits (h : d.Fits ctx) : fix ctx d = some d := by
  have hdigits := h.digitCount_le
  have hetiny := h.etiny_le
  have hadjusted := h.adjusted_le
  rw [adjusted] at hadjusted
  rw [fix]
  split_ifs with hc hover hround
  · rw [hc, digitCount_zero] at hadjusted
    have hexp : min (max d.exponent ctx.etiny) ctx.emax = d.exponent := by omega
    rw [hexp]
  · rw [Context.etop] at hover
    omega
  · rfl
  · rw [roundedExponent] at hround
    omega
  · rw [roundedExponent] at hround
    omega

theorem digitCount_round_le {exponent : ℤ} (hexp : digitCount d.coefficient + d.exponent - ctx.prec ≤ exponent)
    (hlt : d.exponent < exponent) : digitCount (d.round ctx exponent).coefficient ≤ ctx.prec := by
  have hle : roundHalfEven d.coefficient (exponent - d.exponent).toNat ≤ 10 ^ ctx.prec := by
    apply roundHalfEven_le
    exact (lt_pow_digitCount d.coefficient).trans_le (Nat.pow_le_pow_right (by decide) (by omega))
  rw [round]
  split_ifs with hcarry
  · rw [digitCount_le_iff ctx.prec_pos]
    apply Nat.div_lt_of_lt_mul
    have hpow : 0 < 10 ^ ctx.prec := Nat.pow_pos (by decide)
    omega
  · exact Nat.le_of_not_lt hcarry

theorem le_exponent_round (ctx : Context) (d : DecimalFloat) (exponent : ℤ) :
    exponent ≤ (d.round ctx exponent).exponent := by
  rw [round]
  split_ifs
  · exact (lt_add_one exponent).le
  · exact le_refl exponent

/-- The results of operations are numbers that the context holds. -/
theorem fits_of_fix (h : fix ctx a = some d) : d.Fits ctx := by
  rw [fix] at h
  split_ifs at h with hc hover hround hcarry
  · cases h
    have hle := ctx.etiny_le_emax
    exact fits_of_coefficient_eq_zero hc (by dsimp only; omega) (by dsimp only; omega)
  · cases h
    rw [Context.etop] at hover
    rw [roundedExponent] at hround
    refine ⟨by omega, by omega, ?_⟩
    rw [adjusted]
    omega
  · cases h
    have hdigits : digitCount (a.round ctx (a.roundedExponent ctx)).coefficient ≤ ctx.prec :=
      digitCount_round_le (le_max_left _ _) (Int.lt_of_not_ge hround)
    refine ⟨hdigits, ?_, ?_⟩
    · exact (le_max_right _ _).trans (le_exponent_round ctx a _)
    · rw [Context.etop] at hcarry
      rw [adjusted]
      omega

theorem toRat_eq_significandAt {exponent : ℤ} (h : exponent ≤ d.exponent) :
    d.toRat = d.significandAt exponent * 10 ^ exponent := by
  have hexp : d.exponent = ((d.exponent - exponent).toNat : ℤ) + exponent := by omega
  have hpow : (10 : ℚ) ^ d.exponent = 10 ^ (d.exponent - exponent).toNat * 10 ^ exponent := by
    conv_lhs => rw [hexp]
    rw [zpow_add₀ (by norm_num), zpow_natCast]
  rw [toRat, hpow, significandAt]
  push_cast
  ring

theorem numEq_iff (a b : DecimalFloat) : a.numEq b = true ↔ a.toRat = b.toRat := by
  have hne : (10 : ℚ) ^ min a.exponent b.exponent ≠ 0 := zpow_ne_zero _ (by norm_num)
  rw [toRat_eq_significandAt (min_le_left a.exponent b.exponent),
    toRat_eq_significandAt (min_le_right a.exponent b.exponent), numEq, decide_eq_true_eq, mul_left_inj' hne,
    Int.cast_inj]

theorem toRat_eq_zero_iff : d.toRat = 0 ↔ d.coefficient = 0 := by
  have hne : (10 : ℚ) ^ d.exponent ≠ 0 := zpow_ne_zero _ (by norm_num)
  rw [toRat, mul_eq_zero_iff_right hne, Int.cast_eq_zero, significand]
  split_ifs
  · rw [neg_eq_zero, Nat.cast_eq_zero]
  · rw [Nat.cast_eq_zero]

/-- A number is its rounded value exactly if it is an integer. -/
theorem numEq_toIntegralValue_iff (d : DecimalFloat) :
    d.numEq d.toIntegralValue = true ↔ ∃ n : ℤ, d.toRat = n := by
  rw [numEq_iff, toIntegralValue]
  split_ifs with hexp
  · refine ⟨fun _ => ⟨d.significandAt 0, ?_⟩, fun _ => rfl⟩
    rw [toRat_eq_significandAt hexp, zpow_zero, mul_one]
  · set k := (-d.exponent).toNat with hk
    have hpos : (0 : ℚ) < 10 ^ k := by positivity
    have hvalue : d.toRat = d.significand / 10 ^ k := by
      have hexponent : d.exponent = -(k : ℤ) := by omega
      rw [toRat, hexponent, zpow_neg, zpow_natCast, div_eq_mul_inv]
    have hrounded : toRat ⟨d.negative, roundHalfEven d.coefficient k, 0⟩ =
        significand ⟨d.negative, roundHalfEven d.coefficient k, 0⟩ := by
      rw [toRat, zpow_zero, mul_one]
    constructor
    · intro heq
      exact ⟨_, heq.trans hrounded⟩
    · rintro ⟨n, hn⟩
      have hmul : d.significand = n * 10 ^ k := by
        rw [hvalue, div_eq_iff hpos.ne'] at hn
        exact_mod_cast hn
      have hdvd : 10 ^ k ∣ d.coefficient := by
        have habs : d.significand.natAbs = d.coefficient := by
          rw [significand]
          split_ifs
          · rw [Int.natAbs_neg, Int.natAbs_natCast]
          · exact Int.natAbs_natCast _
        rw [← habs, hmul, Int.natAbs_mul, Int.natAbs_pow]
        exact Dvd.intro_left _ rfl
      obtain ⟨m, hm⟩ := hdvd
      have hquotient : roundHalfEven d.coefficient k = m := by
        rw [roundHalfEven_of_dvd ⟨m, hm⟩, hm, Nat.mul_div_cancel_left _ (Nat.pow_pos (by decide))]
      rw [hrounded, hquotient, hvalue, div_eq_iff hpos.ne', significand, significand, hm]
      split_ifs
      · push_cast
        ring
      · push_cast
        ring

/-- The exact product. -/
theorem toRat_product (a b : DecimalFloat) :
    toRat ⟨xor a.negative b.negative, a.coefficient * b.coefficient, a.exponent + b.exponent⟩ = a.toRat * b.toRat := by
  have hsignificand : significand ⟨xor a.negative b.negative, a.coefficient * b.coefficient, a.exponent + b.exponent⟩ =
      a.significand * b.significand := by
    simp only [significand]
    cases a.negative <;> cases b.negative <;> simp
  rw [toRat, hsignificand, toRat, toRat, zpow_add₀ (by norm_num)]
  push_cast
  ring

theorem toRat_exactAdd (a b : DecimalFloat) : (a.exactAdd b).toRat = a.toRat + b.toRat := by
  have hsignificand : (a.exactAdd b).significand =
      a.significandAt (min a.exponent b.exponent) + b.significandAt (min a.exponent b.exponent) := by
    simp only [significand, exactAdd]
    split_ifs with hzero hneg hneg
    · rw [hzero]
      rfl
    · rw [hzero]
      rfl
    · rw [decide_eq_true_eq] at hneg
      omega
    · rw [decide_eq_true_eq] at hneg
      omega
  rw [toRat, hsignificand, toRat_eq_significandAt (min_le_left a.exponent b.exponent),
    toRat_eq_significandAt (min_le_right a.exponent b.exponent), exactAdd]
  push_cast
  ring

/-- A number with a bound on its size and at most so many places after the point. -/
structure Within (ctx : Context) (bound : ℚ) (places : ℕ) (d : DecimalFloat) : Prop where
  etiny_le : ctx.etiny ≤ d.exponent
  le_emax : d.exponent ≤ ctx.emax
  neg_places_le : -(places : ℤ) ≤ d.exponent
  abs_le : |d.toRat| ≤ bound

theorem abs_toRat (d : DecimalFloat) : |d.toRat| = d.coefficient * 10 ^ d.exponent := by
  have hpos : (0 : ℚ) < 10 ^ d.exponent := zpow_pos (by norm_num) _
  have hsignificand : |(d.significand : ℚ)| = d.coefficient := by
    rw [significand]
    split_ifs
    · rw [Int.cast_neg, abs_neg, Int.cast_natCast, Nat.abs_cast]
    · rw [Int.cast_natCast, Nat.abs_cast]
  rw [toRat, abs_mul, abs_of_pos hpos, hsignificand]

/-- Numbers whose digits are fewer than the precision are not rounded. -/
theorem Within.fits {bound : ℚ} {places : ℕ} (h : d.Within ctx bound places)
    (hbound : bound * 10 ^ places < 10 ^ ctx.prec) (hprec : (ctx.prec : ℤ) ≤ ctx.emax) : d.Fits ctx := by
  obtain hzero | hpos := Nat.eq_zero_or_pos d.coefficient
  · exact fits_of_coefficient_eq_zero hzero h.etiny_le h.le_emax
  · have habs := h.abs_le
    rw [abs_toRat] at habs
    have hscaled : (d.coefficient : ℚ) * 10 ^ (d.exponent + places) < 10 ^ ctx.prec := by
      calc (d.coefficient : ℚ) * 10 ^ (d.exponent + places)
          = d.coefficient * 10 ^ d.exponent * 10 ^ places := by
            rw [zpow_add₀ (by norm_num), zpow_natCast]
            ring
        _ ≤ bound * 10 ^ places := mul_le_mul_of_nonneg_right habs (by positivity)
        _ < 10 ^ ctx.prec := hbound
    obtain ⟨k, hk⟩ : ∃ k : ℕ, d.exponent + places = k := ⟨(d.exponent + places).toNat, by
      have := h.neg_places_le
      omega⟩
    rw [hk, zpow_natCast] at hscaled
    have hlt : d.coefficient * 10 ^ k < 10 ^ ctx.prec := by exact_mod_cast hscaled
    have hdigits : digitCount d.coefficient + k ≤ ctx.prec := by
      have hlog : 10 ^ (digitCount d.coefficient - 1) ≤ d.coefficient := Nat.pow_log_le_self 10 hpos.ne'
      have hpow : 10 ^ (digitCount d.coefficient - 1 + k) < 10 ^ ctx.prec := by
        rw [Nat.pow_add]
        exact (Nat.mul_le_mul_right _ hlog).trans_lt hlt
      have hcount := digitCount_pos d.coefficient
      have hexp := (Nat.pow_lt_pow_iff_right (by decide)).mp hpow
      omega
    refine ⟨by omega, h.etiny_le, ?_⟩
    rw [adjusted]
    omega

/-- A product with an integer that needs no rounding. -/
theorem mul_ofInt_of_within {bound : ℚ} {places : ℕ} (h : d.Within ctx bound places) (n : ℕ)
    (hbound : bound * n * 10 ^ places < 10 ^ ctx.prec) (hprec : (ctx.prec : ℤ) ≤ ctx.emax) :
    ∃ product, mul ctx d (.ofInt n) = some product ∧ product.toRat = d.toRat * n ∧
      product.Within ctx (bound * n) places := by
  have hofInt : (ofInt n).toRat = n := by
    simp [toRat, ofInt, significand]
  have hvalue := toRat_product d (.ofInt n)
  rw [hofInt] at hvalue
  have hexponent : d.exponent + (ofInt n).exponent = d.exponent := add_zero _
  have hwithin : Within ctx (bound * n) places
      ⟨xor d.negative (ofInt n).negative, d.coefficient * (ofInt n).coefficient, d.exponent + (ofInt n).exponent⟩ := by
    refine ⟨?_, ?_, ?_, ?_⟩
    · exact h.etiny_le.trans_eq hexponent.symm
    · exact hexponent.le.trans h.le_emax
    · exact h.neg_places_le.trans_eq hexponent.symm
    · rw [hvalue, abs_mul, Nat.abs_cast]
      exact mul_le_mul_of_nonneg_right h.abs_le (Nat.cast_nonneg n)
  exact ⟨_, fix_of_fits (hwithin.fits hbound hprec), hvalue, hwithin⟩

theorem add_of_within {bound other : ℚ} {places : ℕ} (ha : a.Within ctx bound places) (hb : b.Within ctx other places)
    (hbound : (bound + other) * 10 ^ places < 10 ^ ctx.prec) (hprec : (ctx.prec : ℤ) ≤ ctx.emax) :
    ∃ sum, add ctx a b = some sum ∧ sum.toRat = a.toRat + b.toRat ∧ sum.Within ctx (bound + other) places := by
  have hwithin : (a.exactAdd b).Within ctx (bound + other) places := by
    refine ⟨?_, ?_, ?_, ?_⟩
    · exact le_min ha.etiny_le hb.etiny_le
    · exact (min_le_left _ _).trans ha.le_emax
    · exact le_min ha.neg_places_le hb.neg_places_le
    · rw [toRat_exactAdd]
      exact (abs_add_le _ _).trans (add_le_add ha.abs_le hb.abs_le)
  exact ⟨_, fix_of_fits (hwithin.fits hbound hprec), toRat_exactAdd a b, hwithin⟩

theorem fits_of_mul (h : mul ctx a b = some d) : d.Fits ctx :=
  fits_of_fix h

end DecimalFloat

end solution_library.decimal_float
