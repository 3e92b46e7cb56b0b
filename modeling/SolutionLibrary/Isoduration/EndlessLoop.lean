import SolutionLibrary.Isoduration.Addition
import SolutionLibrary.Library.DecimalMagnitude

namespace solution_library.isoduration

open decimal_float DecimalFloat calendar

/-- A year that stays within bounds whatever is carried to it: where it is not exact any more, a carry is lost in
the rounding. -/
structure EndlessYear (year : Decimal) : Prop where
  below : year.Below 29
  fits : 4 * 10 ^ 28 ≤ |year.toRat| → year.Fits context

section endless

variable {places : ℕ} {room bound m : ℤ} {year month day carried : Decimal} {value : ℚ}

theorem EndlessYear.add (h : EndlessYear year) (hcarried : |carried.toRat| ≤ 1) :
    ∃ sum, operation (DecimalFloat.add context year carried) = .ok sum ∧ EndlessYear sum := by
  have hbelow : |year.toRat| ≤ 10 ^ 29 := h.below
  by_cases hbig : 4 * 10 ^ 28 ≤ |year.toRat|
  · have hne : year.coefficient ≠ 0 := by
      intro hzero
      rw [toRat_eq_zero_iff.mpr hzero, abs_zero] at hbig
      norm_num at hbig
    have hadjusted : year.adjusted < 30 := by
      apply adjusted_lt hne
      have hlt : (10 : ℚ) ^ 29 < 10 ^ (30 : ℤ) := by norm_num
      linarith
    have hsmall : 4 * |carried.toRat| * 10 ^ context.prec ≤ |year.toRat| := by
      have hprec : (10 : ℚ) ^ context.prec = 10 ^ 28 := rfl
      rw [hprec]
      linarith
    obtain ⟨sum, hsum, hfits, hvalue⟩ :=
      exists_add_absorbed context_wide (h.fits hbig) hne (hadjusted.trans (by decide)) hsmall
    exact ⟨sum, operation_ok hsum, by rw [Below, hvalue]; exact h.below, fun _ => hfits⟩
  · obtain ⟨sum, hsum, -⟩ := h.below.add context_wide (by decide) (b := carried) (hcarried.trans (by norm_num))
    have hnear := abs_fix_sub_le context_wide hsum
    rw [toRat_exactAdd] at hnear
    have hupper := abs_sub_abs_le_abs_sub sum.toRat (year.toRat + carried.toRat)
    have htriangle := abs_add_le year.toRat carried.toRat
    refine ⟨sum, operation_ok hsum, ?_, fun _ => fits_of_fix hsum⟩
    rw [Below]
    linarith

theorem EndlessYear.divisible (h : EndlessYear year) {n : ℤ} (hn : 0 < n) (hle : n ≤ 400) :
    ∃ divides, divisible year n = .ok divides := by
  have hvalue : (ofInt n).toRat = n := (whole_ofInt 0 n).toRat_eq
  have hone : (1 : ℚ) ≤ n := by exact_mod_cast hn
  have hdivisor : (ofInt n).Below 3 := by
    rw [Below, hvalue, abs_of_nonneg (by linarith)]
    exact (Int.cast_le.mpr hle).trans (by norm_num)
  obtain ⟨quotient, hquotient, hquotientBelow⟩ :=
    h.below.div context_wide (by decide) (b := ofInt n) (by rwa [hvalue, abs_of_nonneg (by linarith)])
  obtain ⟨product, hproduct, hproductBelow⟩ :=
    (hquotientBelow.toIntegral .floor).mul context_wide (by decide) hdivisor
  obtain ⟨remainder, hremainder, -⟩ := (h.below.mono (by decide)).sub context_wide (by decide) hproductBelow
  refine ⟨remainder.numEq .zero, ?_⟩
  rw [isoduration.divisible, mod2, quot2, operation_ok hquotient]
  simp only [bind, Except.bind, operation_ok hproduct, operation_ok hremainder]

theorem EndlessYear.is_leap_year (h : EndlessYear year) : ∃ leap, is_leap_year year = .ok leap := by
  obtain ⟨four, hfour⟩ := h.divisible (n := 4) (by decide) (by decide)
  obtain ⟨hundred, hhundred⟩ := h.divisible (n := 100) (by decide) (by decide)
  obtain ⟨fourHundred, hfourHundred⟩ := h.divisible (n := 400) (by decide) (by decide)
  rw [isoduration.is_leap_year, hfour, hhundred, hfourHundred]
  simp only [bind, Except.bind]
  split_ifs
  · exact ⟨true, rfl⟩
  · exact ⟨false, rfl⟩
  · exact ⟨four, rfl⟩

/-- The days of a month are found, whichever they are. -/
theorem EndlessYear.max_day (h : EndlessYear year) (hroom : Room places room) (hsize : 1000 ≤ room)
    (hmonth : Whole places month m) (hm : 0 ≤ m ∧ m ≤ 13) :
    ∃ k : ℤ, max_day_in_month year month = .ok (.ofInt k) ∧ 28 ≤ k ∧ k ≤ 31 := by
  obtain ⟨norm_month, hnormMonth, -⟩ := mod3_month hroom hmonth (by omega)
  obtain ⟨years, hyears, hyearsWhole⟩ := quot3_month hroom hmonth (by omega)
  have hcarried : |years.toRat| ≤ 1 := by
    rw [hyearsWhole.toRat_eq]
    exact_mod_cast abs_le.mpr (by omega : -1 ≤ (m - 1) / 12 ∧ (m - 1) / 12 ≤ 1)
  obtain ⟨norm_year, hnormYear, hendless⟩ := h.add hcarried
  obtain ⟨leap, hleap⟩ := hendless.is_leap_year
  rw [max_day_in_month, hnormMonth]
  simp only [bind, Except.bind, hyears, hnormYear, hleap]
  split_ifs
  · exact ⟨31, rfl, by decide⟩
  · exact ⟨30, rfl, by decide⟩
  · exact ⟨29, rfl, by decide⟩
  · exact ⟨28, rfl, by decide⟩

theorem EndlessYear.carry_month (h : EndlessYear year) (hroom : Room places room) (hsize : 1000 ≤ room)
    (hmonth : Whole places month m) (hm : 1 ≤ m ∧ m ≤ 12) {carry : ℤ} (hcarry : carry = -1 ∨ carry = 1) :
    ∃ end_year end_month n, carry_month year month carry = .ok (end_year, end_month) ∧ EndlessYear end_year ∧
      Whole places end_month n ∧ 1 ≤ n ∧ n ≤ 12 := by
  obtain ⟨temp, htemp, htempWhole⟩ := add_whole hroom hmonth (whole_ofInt places carry) (by omega)
  obtain ⟨end_month, hmod, hmodWhole⟩ := mod3_month hroom htempWhole (by omega)
  obtain ⟨years, hyears, hyearsWhole⟩ := quot3_month hroom htempWhole (by omega)
  have hcarried : |years.toRat| ≤ 1 := by
    rw [hyearsWhole.toRat_eq]
    exact_mod_cast abs_le.mpr (by omega : -1 ≤ (m + carry - 1) / 12 ∧ (m + carry - 1) / 12 ≤ 1)
  obtain ⟨end_year, hyear, hendless⟩ := h.add hcarried
  refine ⟨end_year, end_month, _, ?_, hendless, hmodWhole, by omega, by omega⟩
  rw [isoduration.carry_month, htemp]
  simp only [bind, Except.bind, hmod, hyears, hyear]

/-- What holds at the beginning of each round: the days are so many that those of a month are lost in the rounding. -/
structure Endless (places : ℕ) (year month day : Decimal) (value : ℚ) : Prop where
  year : EndlessYear year
  month : ∃ m, Whole places month m ∧ 1 ≤ m ∧ m ≤ 12
  day : day.Swallows context 31 value

theorem abs_ofInt_le {k : ℤ} (hk : 28 ≤ k ∧ k ≤ 31) : |(ofInt k).toRat| ≤ 31 := by
  rw [(whole_ofInt 0 k).toRat_eq, abs_of_nonneg (by exact_mod_cast (by omega : 0 ≤ k))]
  exact_mod_cast hk.2

theorem Endless.round (h : Endless places year month day value) (hroom : Room places room) (hsize : 1000 ≤ room)
    (fuel : ℕ) : ∃ end_year end_month end_day, days_loop (fuel + 1) year month day =
      days_loop fuel end_year end_month end_day ∧ Endless places end_year end_month end_day value := by
  obtain ⟨m, hmonth, hm⟩ := h.month
  have hone : (ofInt 1).toRat = 1 := by exact_mod_cast (whole_ofInt 0 1).toRat_eq
  have hbig : 31 < |value| := by
    have hle := h.day.le
    have hprec : (10 : ℚ) ^ context.prec = 10 ^ 28 := rfl
    rw [hprec] at hle
    linarith
  by_cases hlow : value < 1
  · obtain ⟨previous, hprevious, hpreviousWhole⟩ := sub_whole hroom hmonth (whole_ofInt places 1) (by omega)
    obtain ⟨k, hmax, hk⟩ := h.year.max_day hroom hsize hpreviousWhole (by omega)
    obtain ⟨end_day, hend, hendDay⟩ := h.day.add context_wide (abs_ofInt_le hk)
    obtain ⟨end_year, end_month, n, hcarry, hendYear, hendMonth, hn⟩ :=
      h.year.carry_month hroom hsize hmonth hm (.inl rfl)
    refine ⟨end_year, end_month, end_day, ?_, hendYear, ⟨n, hendMonth, hn⟩, hendDay⟩
    rw [days_loop, if_pos ((lt_iff _ _).mpr (by rwa [h.day.toRat_eq, hone])), hprevious]
    simp only [bind, Except.bind, hmax, operation_ok hend, hcarry]
  · obtain ⟨k, hmax, hk⟩ := h.year.max_day hroom hsize hmonth (by omega)
    obtain ⟨end_day, hend, hendDay⟩ := h.day.sub context_wide (abs_ofInt_le hk)
    obtain ⟨end_year, end_month, n, hcarry, hendYear, hendMonth, hn⟩ :=
      h.year.carry_month hroom hsize hmonth hm (.inr rfl)
    have habove : lt (ofInt k) day = true := by
      rw [lt_iff, h.day.toRat_eq, ← abs_of_nonneg (zero_le_one.trans (not_lt.mp hlow))]
      exact (le_abs_self _).trans_lt ((abs_ofInt_le hk).trans_lt hbig)
    refine ⟨end_year, end_month, end_day, ?_, hendYear, ⟨n, hendMonth, hn⟩, hendDay⟩
    rw [days_loop, if_neg (mt (lt_iff _ _).mp (by rwa [h.day.toRat_eq, hone])), hmax]
    simp only [bind, Except.bind, habove, operation_ok hend, hcarry, if_true]

theorem Endless.days_loop (h : Endless places year month day value) (hroom : Room places room) (hsize : 1000 ≤ room)
    (fuel : ℕ) : days_loop fuel year month day = .error .unfinished := by
  induction fuel generalizing year month day with
  | zero => rfl
  | succ fuel ih =>
    obtain ⟨end_year, end_month, end_day, hround, hend⟩ := h.round hroom hsize fuel
    rw [hround]
    exact ih hend

/-- The year that `add` starts the loop with. -/
theorem endlessYear_of_whole (hyear : Whole places year m) (hsize : |m| ≤ 10 ^ 28) : EndlessYear year := by
  have hcast : |(m : ℚ)| ≤ 10 ^ 28 := by exact_mod_cast hsize
  rw [← hyear.toRat_eq] at hcast
  refine ⟨hcast.trans (by norm_num), fun hbig => ?_⟩
  linarith

theorem abs_whole_le {a : Decimal} {n : ℤ} (ha : Whole places a m) (hm : -n ≤ m ∧ m ≤ n) : |a.toRat| ≤ n := by
  rw [ha.toRat_eq]
  exact_mod_cast abs_le.mpr hm

end endless

variable {places : ℕ} {bound : ℤ} {duration : Duration} {span : Span} {days : Decimal}

/-- With too many days `add` goes on for ever: the decimals have not as many digits, so that taking off the days of a
month changes nothing. -/
theorem add_endless (hstands : duration.Stands places span) (hbounded : span.Bounded bound)
    (hsize : ((bound : ℚ) + 1000000) * 10 ^ places ≤ 10 ^ 25) (hdays : ((bound : ℚ) + 100) * 10 ^ 30 ≤ |days.toRat|)
    (hmax : 8 * |days.toRat| ≤ 10 ^ context.emax) (start : DateTime) (fuel : ℕ) :
    add fuel start ⟨{ duration.date with days }, duration.time⟩ = .error .unfinished := by
  have hnonneg := hbounded.nonneg
  have hroom := room_of_bound hnonneg hsize
  obtain ⟨end_year, end_month, temp, weeks, carry, carried, hour, minute, second, microsecond, hhead, hadd⟩ :=
    add_head start hroom hstands hbounded le_rfl
  have hcarried := hhead.carried_mem hbounded
  have hweeks := hbounded.weeks
  have htemp : |temp.toRat| ≤ 31 := by
    have hpos := gregorian.length_pos (start.monthIndex + (12 * span.years + span.months))
    have hdayLe := start.day_mem.2.trans (daysInMonth_le start.year start.month)
    have hday := start.day_mem.1
    exact abs_whole_le hhead.temp ⟨by omega, (min_le_left _ _).trans hdayLe⟩
  have hbound : (0 : ℚ) ≤ bound := by exact_mod_cast hnonneg
  have hprec : (10 : ℚ) ^ context.prec = 10 ^ 28 := rfl
  have hlow := abs_sub_abs_le_abs_sub days.toRat (-temp.toRat)
  have hhigh := abs_add_le temp.toRat days.toRat
  rw [abs_neg, sub_neg_eq_add, add_comm days.toRat] at hlow
  obtain ⟨with_days, value, hwithDays, hwithDaysSwallows⟩ :
      ∃ with_days value, DecimalFloat.add context temp days = some with_days ∧
        with_days.Swallows context (7 * bound + 31) value := by
    apply Swallows.fix context_wide (by linarith)
    · rw [toRat_exactAdd, hprec]
      linarith
    · rw [toRat_exactAdd]
      linarith
  have hweeksSmall : |weeks.toRat| ≤ 7 * bound + 31 := by
    exact_mod_cast abs_whole_le (n := 7 * bound + 31) hhead.weeks (by omega)
  have hcarrySmall : |carry.toRat| ≤ 7 * bound + 31 := by
    exact_mod_cast abs_whole_le (n := 7 * bound + 31) hhead.carry (by omega)
  obtain ⟨with_weeks, hwithWeeks, hwithWeeksSwallows⟩ := hwithDaysSwallows.add context_wide hweeksSmall
  obtain ⟨end_day, hendDay, hendDaySwallows⟩ := hwithWeeksSwallows.add context_wide hcarrySmall
  -- the loop starts with a year and a month that are exact
  obtain ⟨index, hindex⟩ : ∃ index, start.monthIndex + (12 * span.years + span.months) = index := ⟨_, rfl⟩
  have hmonth : IsMonth places end_year end_month index := hindex ▸ hhead.month
  have hyearSize : |index / 12| ≤ 10 ^ 28 := by
    have hpow : (1 : ℚ) ≤ 10 ^ places := one_le_pow₀ (by norm_num)
    have hle : (bound : ℚ) ≤ 10 ^ 25 := by nlinarith
    have hboundLe : bound ≤ 10 ^ 25 := by exact_mod_cast hle
    have hyears := hbounded.years
    have hmonths := hbounded.months
    have hyear := start.year_mem
    have hmonthMem := start.month_mem
    rw [DateTime.monthIndex] at hindex
    rw [abs_le]
    omega
  have hendless : Endless places end_year end_month end_day value :=
    ⟨endlessYear_of_whole hmonth.year hyearSize, ⟨_, hmonth.month, by omega, by omega⟩,
      hendDaySwallows.mono (by norm_num) (by linarith)⟩
  rw [hadd, add_days, hwithDays]
  simp only [bind, Except.bind, operation, Option.elim_some, hwithWeeks, hendDay,
    hendless.days_loop hroom (by omega) fuel]

/-- `P100000000000000000000000000000000D`. -/
theorem add_endless_days :
    add 1000000000 end_of_january ⟨{ days := .ofInt (10 ^ 32) }, {}⟩ = .error .unfinished := by
  have hstands : Duration.Stands 0 ⟨{}, {}⟩ ⟨0, 0, 0, 0, 0, 0, 0⟩ :=
    ⟨whole_ofInt 0 0, whole_ofInt 0 0, whole_ofInt 0 0, whole_ofInt 0 0, whole_ofInt 0 0, whole_ofInt 0 0,
      by norm_num [toRat, significand, zero], by decide, by decide⟩
  have hbounded : Span.Bounded 0 ⟨0, 0, 0, 0, 0, 0, 0⟩ := by
    constructor <;> decide
  have hdays : |(ofInt (10 ^ 32)).toRat| = 10 ^ 32 := by
    rw [(whole_ofInt 0 (10 ^ 32)).toRat_eq, abs_of_nonneg (by positivity)]
    norm_num
  have hmax : (10 : ℚ) ^ (33 : ℤ) ≤ 10 ^ context.emax := zpow_le_zpow_right₀ (by norm_num) (by decide)
  refine add_endless hstands hbounded (by norm_num) ?_ ?_ end_of_january 1000000000
  · rw [hdays]
    norm_num
  · rw [hdays]
    refine le_trans ?_ hmax
    norm_num

end solution_library.isoduration
