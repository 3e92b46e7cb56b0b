import Mathlib.Algebra.Order.BigOperators.GroupWithZero.List
import SolutionLibrary.Isoduration.RoundTrip

namespace solution_library.tracker_import

open text decimal_float DecimalFloat isoduration

/-- An operation of the decimal module that raises if it overflows. -/
def orOverflow (result : Option Decimal) : Except Raised Decimal :=
  result.elim (.error .Overflow) .ok

/-- A product with integers, from the left to the right. -/
def times (value : Decimal) : List ℕ → Except Raised Decimal
  | [] => .ok value
  | factor :: factors => do
    let product ← orOverflow (mul context value (.ofInt factor))
    times product factors

def plus (a b : Decimal) : Except Raised Decimal :=
  orOverflow (add context a b)

/-- The minutes of an estimate: days of eight hours, weeks of forty, months of twenty days. A missing value has no
length, which raises the `TypeError` that is caught. -/
def calculate_iso8601_duration (runtime : Runtime) : Option Text → Except Raised Decimal
  | none => .ok .zero
  | some item => do
    let duration_obj ← runtime.parse_duration item
    let years ← times duration_obj.date.years [60, 8, 20, 12]
    let months ← times duration_obj.date.months [60, 8, 20]
    let duration ← plus years months
    let days ← times duration_obj.date.days [60, 8]
    let weeks ← times duration_obj.date.weeks [60, 40]
    let daysAndWeeks ← plus days weeks
    let duration ← plus duration daysAndWeeks
    let hours ← times duration_obj.time.hours [60]
    let hoursAndMinutes ← plus hours duration_obj.time.minutes
    plus duration hoursAndMinutes

/-- The working minutes of a duration. -/
def workingMinutes (duration : Duration) : ℚ :=
  duration.date.years.toRat * (12 * 20 * 8 * 60) + duration.date.months.toRat * (20 * 8 * 60) +
    (duration.date.days.toRat * (8 * 60) + duration.date.weeks.toRat * (40 * 60)) +
    (duration.time.hours.toRat * 60 + duration.time.minutes.toRat)

variable {bound other : ℚ} {places : ℕ} {value a b : Decimal}

theorem times_eq (h : value.Within context bound places) (factors : List ℕ) (hfactors : ∀ factor ∈ factors, 0 < factor)
    (hbound : bound * factors.prod * 10 ^ places < 10 ^ 28) :
    ∃ product, times value factors = .ok product ∧ product.toRat = value.toRat * factors.prod ∧
      product.Within context (bound * factors.prod) places := by
  induction factors generalizing value bound with
  | nil =>
    simp only [List.prod_nil, Nat.cast_one, mul_one]
    exact ⟨value, rfl, rfl, h⟩
  | cons factor factors ih =>
    obtain ⟨hfactor, hfactors⟩ := List.forall_mem_cons.mp hfactors
    have hnonneg : 0 ≤ bound := (abs_nonneg _).trans h.abs_le
    have hprod : (1 : ℚ) ≤ factors.prod := by
      have hpos : 0 < factors.prod := List.prod_pos hfactors
      exact_mod_cast hpos
    rw [List.prod_cons, Nat.cast_mul, ← mul_assoc] at hbound
    have hfirst : bound * factor * 10 ^ places < 10 ^ context.prec := by
      refine lt_of_le_of_lt ?_ hbound
      apply mul_le_mul_of_nonneg_right _ (by positivity)
      exact le_mul_of_one_le_right (by positivity) hprod
    obtain ⟨product, hproduct, hvalue, hwithin⟩ := mul_ofInt_of_within h factor hfirst (by decide)
    obtain ⟨result, hresult, hresultValue, hresultWithin⟩ := ih hwithin hfactors hbound
    refine ⟨result, ?_, ?_, ?_⟩
    · rw [times, hproduct]
      exact hresult
    · rw [hresultValue, hvalue, List.prod_cons, Nat.cast_mul, mul_assoc]
    · rw [List.prod_cons, Nat.cast_mul, ← mul_assoc]
      exact hresultWithin

theorem plus_eq (ha : a.Within context bound places) (hb : b.Within context other places)
    (hbound : (bound + other) * 10 ^ places < 10 ^ 28) :
    ∃ sum, plus a b = .ok sum ∧ sum.toRat = a.toRat + b.toRat ∧ sum.Within context (bound + other) places := by
  obtain ⟨sum, hsum, hvalue, hwithin⟩ := add_of_within ha hb hbound (by decide)
  exact ⟨sum, by rw [plus, hsum]; rfl, hvalue, hwithin⟩

/-- The minutes of an estimate are exact as long as their digits are fewer than the precision. -/
theorem calculate_iso8601_duration_eq (runtime : Runtime) (item : Text) (duration : Duration)
    (hparse : runtime.parse_duration item = .ok duration)
    (hwithin : ∀ value ∈ duration.elements, |value.toRat| ≤ bound ∧ -(places : ℤ) ≤ value.exponent)
    (hbound : 127741 * bound * 10 ^ places < 10 ^ 28) :
    ∃ minutes, calculate_iso8601_duration runtime (some item) = .ok minutes ∧
      minutes.toRat = workingMinutes duration := by
  have hall : ∀ value ∈ duration.elements, value.Within context bound places := by
    intro value hvalue
    have hfits := fits_of_parse hparse value hvalue
    refine ⟨hfits.etiny_le, ?_, (hwithin value hvalue).2, (hwithin value hvalue).1⟩
    have hadjusted := hfits.adjusted_le
    have hcount := digitCount_pos value.coefficient
    rw [adjusted] at hadjusted
    omega
  simp only [Duration.elements, List.forall_mem_cons] at hall
  obtain ⟨hyears, hmonths, hdays, hweeks, hhours, hminutes, _, _⟩ := hall
  have hnonneg : 0 ≤ bound := (abs_nonneg _).trans hyears.abs_le
  have hless (factor : ℚ) (hle : factor ≤ 127741) : bound * factor * 10 ^ places < 10 ^ 28 := by
    refine lt_of_le_of_lt ?_ hbound
    apply mul_le_mul_of_nonneg_right _ (by positivity)
    rw [mul_comm]
    exact mul_le_mul_of_nonneg_right hle hnonneg
  obtain ⟨years, hyearsEq, hyearsValue, hyearsWithin⟩ :=
    times_eq hyears [60, 8, 20, 12] (by decide) (hless _ (by norm_num))
  obtain ⟨months, hmonthsEq, hmonthsValue, hmonthsWithin⟩ :=
    times_eq hmonths [60, 8, 20] (by decide) (hless _ (by norm_num))
  obtain ⟨days, hdaysEq, hdaysValue, hdaysWithin⟩ := times_eq hdays [60, 8] (by decide) (hless _ (by norm_num))
  obtain ⟨weeks, hweeksEq, hweeksValue, hweeksWithin⟩ := times_eq hweeks [60, 40] (by decide) (hless _ (by norm_num))
  obtain ⟨hours, hhoursEq, hhoursValue, hhoursWithin⟩ := times_eq hhours [60] (by decide) (hless _ (by norm_num))
  obtain ⟨upper, hupperEq, hupperValue, hupperWithin⟩ := plus_eq hyearsWithin hmonthsWithin
    (by rw [← mul_add]; exact hless _ (by norm_num))
  obtain ⟨middle, hmiddleEq, hmiddleValue, hmiddleWithin⟩ := plus_eq hdaysWithin hweeksWithin
    (by rw [← mul_add]; exact hless _ (by norm_num))
  obtain ⟨date, hdateEq, hdateValue, hdateWithin⟩ := plus_eq hupperWithin hmiddleWithin
    (by rw [← mul_add, ← mul_add, ← mul_add]; exact hless _ (by norm_num))
  rw [← mul_one bound] at hminutes
  obtain ⟨time, htimeEq, htimeValue, htimeWithin⟩ := plus_eq hhoursWithin hminutes
    (by rw [← mul_add]; exact hless _ (by norm_num))
  obtain ⟨minutes, hminutesEq, hminutesValue, _⟩ := plus_eq hdateWithin htimeWithin
    (by simp only [← mul_add]; exact hless _ (by norm_num))
  refine ⟨minutes, ?_, ?_⟩
  · rw [calculate_iso8601_duration, hparse]
    simp only [bind, Except.bind, hyearsEq, hmonthsEq, hdaysEq, hweeksEq, hhoursEq, hupperEq, hmiddleEq, hdateEq,
      htimeEq, hminutesEq]
  · rw [hminutesValue, hdateValue, htimeValue, hupperValue, hmiddleValue, hyearsValue, hmonthsValue, hdaysValue,
      hweeksValue, hhoursValue, workingMinutes]
    norm_num

theorem calculate_iso8601_duration_of_week : ∃ minutes,
    calculate_iso8601_duration .ascii (some "P1W2DT3H".toList) = .ok minutes ∧ minutes.toRat = 3540 := by
  have hparse : Runtime.ascii.parse_duration "P1W2DT3H".toList =
      .ok ⟨{ days := .ofInt 2, weeks := .ofInt 1 }, { hours := .ofInt 3 }⟩ := by decide +kernel
  have hwithin : ∀ value ∈ (⟨{ days := .ofInt 2, weeks := .ofInt 1 }, { hours := .ofInt 3 }⟩ : Duration).elements,
      |value.toRat| ≤ 3 ∧ -((0 : ℕ) : ℤ) ≤ value.exponent := by
    simp only [Duration.elements, List.forall_mem_cons, abs_toRat]
    norm_num [ofInt, zero]
  obtain ⟨minutes, hminutes, hvalue⟩ :=
    calculate_iso8601_duration_eq .ascii _ _ hparse hwithin (by norm_num)
  refine ⟨minutes, hminutes, hvalue.trans ?_⟩
  norm_num [workingMinutes, toRat, significand, ofInt, zero]

end solution_library.tracker_import
