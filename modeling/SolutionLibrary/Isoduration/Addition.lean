import SolutionLibrary.Isoduration.WholeNumbers

namespace solution_library.isoduration

open decimal_float DecimalFloat calendar

/-- A duration in whole numbers, down to microseconds. -/
structure Span where
  years : ℤ
  months : ℤ
  days : ℤ
  weeks : ℤ
  hours : ℤ
  minutes : ℤ
  microseconds : ℤ

/-- The microseconds of the fields of the time. -/
def Span.clock (span : Span) : ℤ :=
  (span.hours * 60 + span.minutes) * 60000000 + span.microseconds

/-- The fields of a duration are whole numbers, down to microseconds. -/
structure Duration.Stands (places : ℕ) (duration : Duration) (span : Span) : Prop where
  years : Whole places duration.date.years span.years
  months : Whole places duration.date.months span.months
  days : Whole places duration.date.days span.days
  weeks : Whole places duration.date.weeks span.weeks
  hours : Whole places duration.time.hours span.hours
  minutes : Whole places duration.time.minutes span.minutes
  seconds : duration.time.seconds.HasValue context places (span.microseconds / 1000000)

/-- A bound on the fields. -/
structure Span.Bounded (bound : ℤ) (span : Span) : Prop where
  years : -bound ≤ span.years ∧ span.years ≤ bound
  months : -bound ≤ span.months ∧ span.months ≤ bound
  days : -bound ≤ span.days ∧ span.days ≤ bound
  weeks : -bound ≤ span.weeks ∧ span.weeks ≤ bound
  hours : -bound ≤ span.hours ∧ span.hours ≤ bound
  minutes : -bound ≤ span.minutes ∧ span.minutes ≤ bound
  microseconds : -(1000000 * bound) ≤ span.microseconds ∧ span.microseconds ≤ 1000000 * bound

namespace DateTime

variable (t : DateTime)

/-- The number of the month in the calendar. -/
def monthIndex : ℤ :=
  12 * t.year + t.month - 1

/-- The microseconds since midnight. -/
def clock : ℤ :=
  ((t.hour * 60 + t.minute) * 60 + t.second) * 1000000 + t.microsecond

/-- The microseconds since the beginning of the calendar. -/
def micros : ℤ :=
  (gregorian.before t.monthIndex + t.day) * 86400000000 + t.clock

end DateTime

namespace DateTime

variable {t other : DateTime}

theorem inMonth (t : DateTime) : gregorian.InMonth t.monthIndex t.day := by
  have hmonth := t.month_mem
  have hyearIndex : t.monthIndex / 12 = t.year := by
    rw [monthIndex]
    omega
  have hmonthIndex : t.monthIndex % 12 + 1 = t.month := by
    rw [monthIndex]
    omega
  refine ⟨t.day_mem.1, ?_⟩
  rw [gregorian_length, hyearIndex, hmonthIndex]
  exact t.day_mem.2

theorem clock_mem (t : DateTime) : 0 ≤ t.clock ∧ t.clock < 86400000000 := by
  have hhour := t.hour_mem
  have hminute := t.minute_mem
  have hsecond := t.second_mem
  have hmicrosecond := t.microsecond_mem
  rw [clock]
  omega

theorem eq_of_fields (hmonth : t.monthIndex = other.monthIndex) (hday : t.day = other.day)
    (hclock : t.clock = other.clock) : t = other := by
  have hmonthMem := t.month_mem
  have hotherMonth := other.month_mem
  have hminute := t.minute_mem
  have hotherMinute := other.minute_mem
  have hsecond := t.second_mem
  have hotherSecond := other.second_mem
  have hmicrosecond := t.microsecond_mem
  have hotherMicrosecond := other.microsecond_mem
  rw [monthIndex, monthIndex] at hmonth
  rw [clock, clock] at hclock
  ext <;> omega

theorem micros_injective : Function.Injective micros := by
  intro t other h
  have hclock := t.clock_mem
  have hotherClock := other.clock_mem
  rw [micros, micros] at h
  obtain ⟨hmonth, hday⟩ := t.inMonth.unique other.inMonth (by omega)
  exact eq_of_fields hmonth hday (by omega)

end DateTime

/-- The time that a span is after a start: the months come first, and the day of the start is cut down to the last one
of the month in which it is then; days and the fields of the time are added to that. -/
def shifted (start : DateTime) (span : Span) : ℤ :=
  let month := start.monthIndex + (12 * span.years + span.months)
  (gregorian.before month + min start.day (gregorian.length month) + span.days + 7 * span.weeks) * 86400000000 +
    start.clock + span.clock

section whole

variable {places : ℕ} {room bound : ℤ} {start : DateTime} {duration : Duration} {span : Span}

/-- The seconds without their fraction, and the microseconds of the fraction. -/
theorem seconds_whole (h : Room places room) (hroom : 1000000 ≤ room) {value : Decimal} {s : ℤ}
    (hvalue : value.HasValue context places (s / 1000000)) :
    ∃ (fraction microseconds : Decimal) (n : ℤ), Whole places (value.toIntegral .down) n ∧
      operation (sub context value (value.toIntegral .down)) = .ok fraction ∧
        operation (mul context fraction million) = .ok microseconds ∧ Whole places microseconds (s - n * 1000000) ∧
          -1000000 < s - n * 1000000 ∧ s - n * 1000000 < 1000000 := by
  obtain ⟨n, hn, hnear⟩ := exists_toRat_toIntegral .down value
  rw [hvalue.toRat_eq, abs_sub_comm] at hnear
  have hwhole : Whole places (value.toIntegral .down) n := .toIntegral context_wide places .down hn
  have hone : (1 : ℚ) ≤ room := by exact_mod_cast h.one_le
  have hmillion : (1000000 : ℚ) ≤ room := by exact_mod_cast hroom
  obtain ⟨fraction, hfraction, hfractionValue⟩ := hvalue.sub hwhole context_wide (h.abs_mul_lt (by linarith))
  have hscaled : ((s : ℚ) / 1000000 - n) * 1000000 = (s - n * 1000000 : ℤ) := by
    push_cast
    ring
  have hsmall : |((s : ℚ) / 1000000 - n) * 1000000| < 1000000 := by
    rw [abs_mul, abs_of_pos (by norm_num : (0 : ℚ) < 1000000)]
    linarith
  obtain ⟨microseconds, hmicroseconds, hmicrosecondsValue⟩ := hfractionValue.mul divisor_million.toRat_eq
    divisor_million.exponent_nonneg context_wide (h.abs_mul_lt (by push_cast; linarith))
  push_cast at hmicrosecondsValue
  rw [hscaled] at hmicrosecondsValue hsmall
  have hbounds : |s - n * 1000000| < 1000000 := by exact_mod_cast hsmall
  exact ⟨fraction, microseconds, n, hwhole, operation_ok hfraction, operation_ok hmicroseconds, hmicrosecondsValue,
    abs_lt.mp hbounds⟩

/-- The arguments of `datetime` at the end of `add`. -/
structure Arrives (start : DateTime) (span : Span) (last day hour minute second microsecond : ℤ) : Prop where
  inMonth : gregorian.InMonth last day
  hour_mem : 0 ≤ hour ∧ hour < 24
  minute_mem : 0 ≤ minute ∧ minute < 60
  second_mem : 0 ≤ second ∧ second < 60
  microsecond_mem : 0 ≤ microsecond ∧ microsecond < 1000000
  micros_eq : (gregorian.before last + day) * 86400000000 +
    (((hour * 60 + minute) * 60 + second) * 1000000 + microsecond) = shifted start span

/-- The rest of `add`, from the days on. -/
def add_days (fuel : ℕ) (end_year end_month temp days weeks carry : Decimal) (hour minute second microsecond : ℤ) :
    Except AddRaised DateTime := do
  let withDays ← operation (DecimalFloat.add context temp days)
  let withWeeks ← operation (DecimalFloat.add context withDays weeks)
  let end_day ← operation (DecimalFloat.add context withWeeks carry)
  let (end_year, end_month, end_day) ← days_loop fuel end_year end_month end_day
  datetime (rounded end_year) (rounded end_month) (rounded end_day) hour minute second microsecond

/-- What `add` has computed before it comes to the days. -/
structure Head (places : ℕ) (start : DateTime) (span : Span) (end_year end_month temp weeks carry : Decimal)
    (carried hour minute second microsecond : ℤ) : Prop where
  month : IsMonth places end_year end_month (start.monthIndex + (12 * span.years + span.months))
  temp : Whole places temp
    (min start.day (gregorian.length (start.monthIndex + (12 * span.years + span.months))))
  weeks : Whole places weeks (span.weeks * 7)
  carry : Whole places carry carried
  hour_mem : 0 ≤ hour ∧ hour < 24
  minute_mem : 0 ≤ minute ∧ minute < 60
  second_mem : 0 ≤ second ∧ second < 60
  microsecond_mem : 0 ≤ microsecond ∧ microsecond < 1000000
  clock_eq : ((hour * 60 + minute) * 60 + second) * 1000000 + microsecond + carried * 86400000000 =
    start.clock + span.clock

theorem clamped_whole (h : Room places room) {end_year end_month : Decimal} {index : ℤ}
    (hmonth : IsMonth places end_year end_month index) (hsize : 6000 - room ≤ index ∧ index ≤ room - 6000)
    (day : ℤ) : ∃ max_day, max_day_in_month end_year end_month = .ok max_day ∧
      Whole places (if lt max_day (.ofInt day) then max_day else .ofInt day) (min day (gregorian.length index)) := by
  obtain ⟨max_day, hmax, hmaxWhole⟩ := max_day_in_month_whole h hmonth.year hmonth.month (by omega) (by omega)
  have hsame : 12 * (index / 12) + (index % 12 + 1) - 1 = index := by omega
  rw [hsame] at hmaxWhole
  refine ⟨max_day, hmax, ?_⟩
  rw [lt_whole hmaxWhole (whole_ofInt places day)]
  simp only [decide_eq_true_eq]
  split_ifs with hlt
  · rw [min_eq_right hlt.le]
    exact hmaxWhole
  · rw [min_eq_left (not_lt.mp hlt)]
    exact whole_ofInt places day

/-- Whatever the days are, `add` comes to them. -/
theorem add_head (start : DateTime) (h : Room places room) (hstands : duration.Stands places span)
    (hbounded : span.Bounded bound) (hroom : 22 * bound + 3000000 ≤ room) :
    ∃ end_year end_month temp weeks carry carried hour minute second microsecond,
      Head places start span end_year end_month temp weeks carry carried hour minute second microsecond ∧
        ∀ days fuel, add fuel start ⟨{ duration.date with days }, duration.time⟩ =
          add_days fuel end_year end_month temp days weeks carry hour minute second microsecond := by
  obtain ⟨hyears, hmonths, hdays, hweeks, hhours, hminutes, hmicroseconds⟩ := hbounded
  have hyearMem := start.year_mem
  have hmonthMem := start.month_mem
  have hhourMem := start.hour_mem
  have hminuteMem := start.minute_mem
  have hsecondMem := start.second_mem
  have hmicrosecondMem := start.microsecond_mem
  -- the month
  obtain ⟨temp, htemp, htempWhole⟩ := add_whole h (whole_ofInt places start.month) hstands.months (by omega)
  obtain ⟨end_month, hendMonth, hendMonthWhole⟩ := mod3_month h htempWhole (by omega)
  obtain ⟨carry, hcarry, hcarryWhole⟩ := quot3_month h htempWhole (by omega)
  obtain ⟨years, hyearsEq, hyearsWhole⟩ := add_whole h (whole_ofInt places start.year) hstands.years (by omega)
  obtain ⟨end_year, hendYear, hendYearWhole⟩ := add_whole h hyearsWhole hcarryWhole (by omega)
  obtain ⟨index, hindex⟩ : ∃ index, start.monthIndex + (12 * span.years + span.months) = index := ⟨_, rfl⟩
  have hmonth : IsMonth places end_year end_month index := by
    rw [DateTime.monthIndex] at hindex
    have hyearIndex : start.year + span.years + (start.month + span.months - 1) / 12 = index / 12 := by omega
    have hmonthIndex : (start.month + span.months - 1) % 12 + 1 = index % 12 + 1 := by omega
    rw [hyearIndex] at hendYearWhole
    rw [hmonthIndex] at hendMonthWhole
    exact ⟨hendYearWhole, hendMonthWhole⟩
  -- the clock
  obtain ⟨fraction, microseconds, n, hseconds, hfraction, hmicros, hmicrosWhole, hmicrosLow, hmicrosHigh⟩ :=
    seconds_whole h (by omega) hstands.seconds
  obtain ⟨end_microsecond, carry₁, microsecond, c₁, hmicrosecond, hmicrosecondWhole, hcarry₁, hmicrosecondLt, htotal₁⟩ :=
    clock_digit_whole h start.microsecond hmicrosWhole divisor_million none (c := 0)
      (fun _ hnone => nomatch hnone) (fun _ => rfl) (by omega) (by omega)
  obtain ⟨end_second, carry₂, second, c₂, hsecond, hsecondWhole, hcarry₂, hsecondLt, htotal₂⟩ :=
    clock_digit_whole h start.second hseconds (divisor_ofInt (n := 60) (by decide) (by decide)) (some carry₁)
      (fun _ hsome => Option.some.inj hsome ▸ hcarry₁) (fun hnone => nomatch hnone) (by omega) (by omega)
  obtain ⟨end_minute, carry₃, minute, c₃, hminute, hminuteWhole, hcarry₃, hminuteLt, htotal₃⟩ :=
    clock_digit_whole h start.minute hstands.minutes (divisor_ofInt (n := 60) (by decide) (by decide))
      (some carry₂) (fun _ hsome => Option.some.inj hsome ▸ hcarry₂) (fun hnone => nomatch hnone) (by omega)
      (by omega)
  obtain ⟨end_hour, carry₄, hour, c₄, hhour, hhourWhole, hcarry₄, hhourLt, htotal₄⟩ :=
    clock_digit_whole h start.hour hstands.hours (divisor_ofInt (n := 24) (by decide) (by decide))
      (some carry₃) (fun _ hsome => Option.some.inj hsome ▸ hcarry₃) (fun hnone => nomatch hnone) (by omega)
      (by omega)
  -- the day and the weeks
  have hindexSize : 6000 - room ≤ index ∧ index ≤ room - 6000 := by
    rw [DateTime.monthIndex] at hindex
    omega
  obtain ⟨max_day, hmax, hclamped⟩ := clamped_whole h hmonth hindexSize start.day
  obtain ⟨weeks, hweeksEq, hweeksWhole⟩ :=
    mul_whole h hstands.weeks (whole_ofInt places 7).toRat_eq le_rfl (by omega)
  refine ⟨end_year, end_month, _, weeks, carry₄, c₄, hour, minute, second, microsecond,
    ⟨hindex ▸ hmonth, hindex ▸ hclamped, hweeksWhole, hcarry₄, hhourLt, hminuteLt, hsecondLt, hmicrosecondLt, ?_⟩,
    fun days fuel => ?_⟩
  · rw [DateTime.clock, Span.clock]
    omega
  · rw [add, htemp, add_days]
    simp only [bind, Except.bind, hendMonth, hcarry, hyearsEq, hendYear, hfraction, hmicros, hmicrosecond, hsecond,
      hminute, hhour, hmax, hweeksEq, rounded_whole hhourWhole, rounded_whole hminuteWhole, rounded_whole hsecondWhole,
      rounded_whole hmicrosecondWhole]

section head

variable {end_year end_month temp weeks carry : Decimal} {carried hour minute second microsecond : ℤ}

theorem Head.carried_mem (h : Head places start span end_year end_month temp weeks carry carried hour minute second
    microsecond) (hbounded : span.Bounded bound) : -(bound + 2) ≤ carried ∧ carried ≤ bound + 2 := by
  have hhours := hbounded.hours
  have hminutes := hbounded.minutes
  have hmicroseconds := hbounded.microseconds
  have hhour := h.hour_mem
  have hminute := h.minute_mem
  have hsecond := h.second_mem
  have hmicrosecond := h.microsecond_mem
  have hclock := start.clock_mem
  have heq := h.clock_eq
  rw [Span.clock] at heq
  omega

end head

theorem add_arrives (start : DateTime) (h : Room places room) (hstands : duration.Stands places span)
    (hbounded : span.Bounded bound) (hroom : 22 * bound + 3000000 ≤ room) {fuel : ℕ} (hfuel : 9 * bound + 100 ≤ fuel) :
    ∃ last day hour minute second microsecond, add fuel start duration =
      datetime (last / 12) (last % 12 + 1) day hour minute second microsecond ∧
        Arrives start span last day hour minute second microsecond := by
  obtain ⟨end_year, end_month, temp, weeks, carry, carried, hour, minute, second, microsecond, hhead, hadd⟩ :=
    add_head start h hstands hbounded hroom
  have hcarried := hhead.carried_mem hbounded
  have hmonth := hhead.month
  have htemp := hhead.temp
  have hclock := hhead.clock_eq
  have hyears := hbounded.years
  have hmonths := hbounded.months
  have hdays := hbounded.days
  have hweeks := hbounded.weeks
  have hdayLe := start.day_mem.2.trans (daysInMonth_le start.year start.month)
  obtain ⟨index, hindex⟩ : ∃ index, start.monthIndex + (12 * span.years + span.months) = index := ⟨_, rfl⟩
  have hindexSize : -(13 * bound + 12) ≤ index ∧ index ≤ 13 * bound + 120000 := by
    have hyear := start.year_mem
    have hmonth := start.month_mem
    rw [DateTime.monthIndex] at hindex
    omega
  rw [hindex] at hmonth htemp
  have hclampedPos : 1 ≤ min start.day (gregorian.length index) := le_min start.day_mem.1 (gregorian.length_pos index)
  have hclampedLe : min start.day (gregorian.length index) ≤ 31 := (min_le_left _ _).trans hdayLe
  obtain ⟨with_days, hwithDays, hwithDaysWhole⟩ := add_whole h htemp hstands.days (by omega)
  obtain ⟨with_weeks, hwithWeeks, hwithWeeksWhole⟩ := add_whole h hwithDaysWhole hhead.weeks (by omega)
  obtain ⟨end_day, hendDay, hendDayWhole⟩ := add_whole h hwithWeeksWhole hhead.carry (by omega)
  obtain ⟨count, hcount⟩ :
      ∃ count, min start.day (gregorian.length index) + span.days + span.weeks * 7 + carried = count := ⟨_, rfl⟩
  rw [hcount] at hendDayWhole
  have hrounds : rounds count ≤ 9 * bound + 100 := by
    rw [rounds]
    split_ifs <;> omega
  obtain ⟨last_year, last_month, last_day, last, rest, hloop, hlast, hrest, hin, hbefore⟩ :=
    days_loop_whole h index count fuel end_year end_month end_day hmonth hendDayWhole (by omega) (by omega)
  refine ⟨last, rest, hour, minute, second, microsecond, ?_, hin, hhead.hour_mem, hhead.minute_mem, hhead.second_mem,
    hhead.microsecond_mem, ?_⟩
  · rw [hadd duration.date.days fuel, add_days, hwithDays]
    simp only [bind, Except.bind, hwithWeeks, hendDay, hloop, rounded_whole hlast.year, rounded_whole hlast.month,
      rounded_whole hrest]
  · rw [shifted, hindex]
    omega

section arrives

variable {last day hour minute second microsecond : ℤ}

theorem datetime_of_year (h : Arrives start span last day hour minute second microsecond)
    (hyear : 1 ≤ last / 12 ∧ last / 12 ≤ 9999) :
    ∃ t, datetime (last / 12) (last % 12 + 1) day hour minute second microsecond = .ok t ∧
      t.micros = shifted start span := by
  have hhour := h.hour_mem
  have hminute := h.minute_mem
  have hsecond := h.second_mem
  have hmicrosecond := h.microsecond_mem
  have hday := h.inMonth.one_le
  have hdayLe := h.inMonth.le_length
  have hmonthLe := daysInMonth_le (last / 12) (last % 12 + 1)
  rw [gregorian_length] at hdayLe
  rw [datetime, if_pos, dif_pos]
  · refine ⟨_, rfl, ?_⟩
    have hindex : 12 * (last / 12) + (last % 12 + 1) - 1 = last := by omega
    rw [← h.micros_eq, DateTime.micros, DateTime.monthIndex, DateTime.clock]
    simp only [hindex]
  · exact ⟨hyear, by omega, ⟨hday, hdayLe⟩, hhour, hminute, hsecond, hmicrosecond⟩
  · simp only [List.forall_mem_cons, isCInt]
    refine ⟨?_, ?_, ?_, ?_, ?_, ?_, ?_, fun _ hnil => nomatch hnil⟩ <;> omega

theorem datetime_error {year : ℤ} (month day hour minute second microsecond : ℤ) (hyear : ¬(1 ≤ year ∧ year ≤ 9999)) :
    datetime year month day hour minute second microsecond = .error .ValueError ∨
      datetime year month day hour minute second microsecond = .error .OverflowError := by
  rw [datetime]
  split_ifs with hint hall
  · exact absurd hall.1 hyear
  · exact .inl rfl
  · exact .inr rfl

/-- A time of the years that `datetime` has. -/
theorem Arrives.year_of_micros (h : Arrives start span last day hour minute second microsecond) {t : DateTime}
    (ht : t.micros = shifted start span) : 1 ≤ last / 12 ∧ last / 12 ≤ 9999 := by
  have hclock := t.clock_mem
  have hhour := h.hour_mem
  have hminute := h.minute_mem
  have hsecond := h.second_mem
  have hmicrosecond := h.microsecond_mem
  have hyear := t.year_mem
  have hmonthMem := t.month_mem
  rw [← h.micros_eq, DateTime.micros] at ht
  obtain ⟨hmonth, _⟩ := t.inMonth.unique h.inMonth (by omega)
  rw [← hmonth, DateTime.monthIndex]
  omega

end arrives

/-- The size of the fields for which the decimals are exact. -/
theorem room_of_bound (hbound : 0 ≤ bound) (hsize : ((bound : ℚ) + 1000000) * 10 ^ places ≤ 10 ^ 25) :
    Room places (22 * bound + 3000000) := by
  have hnonneg : (0 : ℚ) ≤ bound := by exact_mod_cast hbound
  have hpow : (0 : ℚ) < 10 ^ places := by positivity
  refine ⟨by omega, ?_⟩
  push_cast
  nlinarith [mul_nonneg hnonneg hpow.le]

theorem Span.Bounded.nonneg (h : span.Bounded bound) : 0 ≤ bound := by
  have hyears := h.years
  omega

theorem add_eq_ok_iff (hstands : duration.Stands places span) (hbounded : span.Bounded bound)
    (hsize : ((bound : ℚ) + 1000000) * 10 ^ places ≤ 10 ^ 25) (start t : DateTime) {fuel : ℕ}
    (hfuel : 9 * bound + 100 ≤ fuel) : add fuel start duration = .ok t ↔ t.micros = shifted start span := by
  have hroom := room_of_bound hbounded.nonneg hsize
  obtain ⟨last, day, hour, minute, second, microsecond, hadd, harrives⟩ :=
    add_arrives start hroom hstands hbounded le_rfl hfuel
  rw [hadd]
  constructor
  · intro ht
    by_cases hyear : 1 ≤ last / 12 ∧ last / 12 ≤ 9999
    · obtain ⟨result, hresult, hmicros⟩ := datetime_of_year harrives hyear
      rw [hresult] at ht
      cases ht
      exact hmicros
    · obtain herror | herror := datetime_error (last % 12 + 1) day hour minute second microsecond hyear
      · rw [herror] at ht
        cases ht
      · rw [herror] at ht
        cases ht
  · intro ht
    obtain ⟨result, hresult, hmicros⟩ := datetime_of_year harrives (harrives.year_of_micros ht)
    rw [hresult, DateTime.micros_injective (hmicros.trans ht.symm)]

theorem add_eq_error (hstands : duration.Stands places span) (hbounded : span.Bounded bound)
    (hsize : ((bound : ℚ) + 1000000) * 10 ^ places ≤ 10 ^ 25) (start : DateTime) {fuel : ℕ}
    (hfuel : 9 * bound + 100 ≤ fuel) (hnone : ∀ t : DateTime, t.micros ≠ shifted start span) :
    add fuel start duration = .error .ValueError ∨ add fuel start duration = .error .OverflowError := by
  have hroom := room_of_bound hbounded.nonneg hsize
  obtain ⟨last, day, hour, minute, second, microsecond, hadd, harrives⟩ :=
    add_arrives start hroom hstands hbounded le_rfl hfuel
  rw [hadd]
  apply datetime_error
  intro hyear
  obtain ⟨t, _, ht⟩ := datetime_of_year harrives hyear
  exact hnone t ht

/-- A duration in whole numbers of bounded size is added as in the calendar, within so many rounds of the loop: the
result is the time that is so far after the start, and an exception of `datetime` if no year from 1 to 9999 has it. -/
theorem add_iff (hstands : duration.Stands places span) (hbounded : span.Bounded bound)
    (hsize : ((bound : ℚ) + 1000000) * 10 ^ places ≤ 10 ^ 25) (start : DateTime) (fuel : ℕ)
    (hfuel : 9 * bound + 100 ≤ fuel) :
    (∀ t, add fuel start duration = .ok t ↔ t.micros = shifted start span) ∧
      ((∀ t : DateTime, t.micros ≠ shifted start span) →
        add fuel start duration = .error .ValueError ∨ add fuel start duration = .error .OverflowError) :=
  ⟨fun t => add_eq_ok_iff hstands hbounded hsize start t hfuel, add_eq_error hstands hbounded hsize start hfuel⟩

/-- `P1MT0.5S`. -/
def month_and_half_second : Duration :=
  ⟨{ months := .ofInt 1 }, { seconds := ⟨false, 5, -1⟩ }⟩

theorem stands_month_and_half_second : month_and_half_second.Stands 1 ⟨0, 1, 0, 0, 0, 0, 500000⟩ where
  years := whole_ofInt 1 0
  months := whole_ofInt 1 1
  days := whole_ofInt 1 0
  weeks := whole_ofInt 1 0
  hours := whole_ofInt 1 0
  minutes := whole_ofInt 1 0
  seconds := ⟨by norm_num [toRat, significand, month_and_half_second], by decide, by decide⟩

/-- `2024-01-31T23:59:59.500000`. -/
def end_of_january : DateTime :=
  ⟨2024, 1, 31, 23, 59, 59, 500000, by decide, by decide, by decide, by decide, by decide, by decide, by decide⟩

/-- `2024-03-01T00:00:00`. -/
def beginning_of_march : DateTime :=
  ⟨2024, 3, 1, 0, 0, 0, 0, by decide, by decide, by decide, by decide, by decide, by decide, by decide⟩

/-- The day is cut down to the 29th of February before the half second is added. -/
theorem add_iff_leap_february : add 109 end_of_january month_and_half_second = .ok beginning_of_march := by
  have hbounded : Span.Bounded 1 ⟨0, 1, 0, 0, 0, 0, 500000⟩ := by
    constructor <;> decide
  refine ((add_iff stands_month_and_half_second hbounded (by norm_num) end_of_january 109 (by norm_num)).1 _).mpr ?_
  decide

/-- The span in the other direction. -/
def Span.neg (span : Span) : Span :=
  ⟨-span.years, -span.months, -span.days, -span.weeks, -span.hours, -span.minutes, -span.microseconds⟩

theorem Span.Bounded.neg (h : span.Bounded bound) : span.neg.Bounded bound := by
  obtain ⟨hyears, hmonths, hdays, hweeks, hhours, hminutes, hmicroseconds⟩ := h
  refine ⟨?_, ?_, ?_, ?_, ?_, ?_, ?_⟩ <;> rw [Span.neg] <;> dsimp only <;> omega

theorem neg_whole (h : Room places room) {value : Decimal} {n : ℤ} (hvalue : Whole places value n)
    (hsize : -room ≤ n ∧ n ≤ room) :
    ∃ result, operation (DecimalFloat.neg context value) = .ok result ∧ Whole places result (-n) := by
  obtain ⟨result, hresult, hnegated⟩ := hvalue.neg context_wide (h.abs_lt hsize)
  rw [← Int.cast_neg] at hnegated
  exact ⟨result, operation_ok hresult, hnegated⟩

theorem neg_stands (h : Room places room) (hstands : duration.Stands places span) (hbounded : span.Bounded bound)
    (hroom : bound ≤ room) : ∃ negated, duration.neg = .ok negated ∧ negated.Stands places span.neg := by
  obtain ⟨hyears, hmonths, hdays, hweeks, hhours, hminutes, hmicroseconds⟩ := hbounded
  obtain ⟨years, hyearsEq, hyearsWhole⟩ := neg_whole h hstands.years (by omega)
  obtain ⟨months, hmonthsEq, hmonthsWhole⟩ := neg_whole h hstands.months (by omega)
  obtain ⟨days, hdaysEq, hdaysWhole⟩ := neg_whole h hstands.days (by omega)
  obtain ⟨weeks, hweeksEq, hweeksWhole⟩ := neg_whole h hstands.weeks (by omega)
  obtain ⟨hours, hhoursEq, hhoursWhole⟩ := neg_whole h hstands.hours (by omega)
  obtain ⟨minutes, hminutesEq, hminutesWhole⟩ := neg_whole h hstands.minutes (by omega)
  have hsecondsSize : |(span.microseconds : ℚ) / 1000000| ≤ room := by
    have hle : |(span.microseconds : ℚ)| ≤ 1000000 * bound := by exact_mod_cast abs_le.mpr hmicroseconds
    have hcast : (bound : ℚ) ≤ room := by exact_mod_cast hroom
    rw [abs_div, abs_of_pos (by norm_num : (0 : ℚ) < 1000000), div_le_iff₀ (by norm_num)]
    linarith
  obtain ⟨seconds, hsecondsEq, hsecondsWhole⟩ := hstands.seconds.neg context_wide (h.abs_mul_lt hsecondsSize)
  have hnegated : -((span.microseconds : ℚ) / 1000000) = (span.neg.microseconds : ℤ) / 1000000 := by
    rw [Span.neg, Int.cast_neg, neg_div]
  rw [hnegated] at hsecondsWhole
  refine ⟨⟨⟨years, months, days, weeks⟩, ⟨hours, minutes, seconds⟩⟩, ?_,
    ⟨hyearsWhole, hmonthsWhole, hdaysWhole, hweeksWhole, hhoursWhole, hminutesWhole, hsecondsWhole⟩⟩
  rw [Duration.neg, hyearsEq]
  simp only [bind, Except.bind, hmonthsEq, hdaysEq, hweeksEq, hhoursEq, hminutesEq, operation_ok hsecondsEq]

/-- Subtraction adds the span in the other direction. -/
theorem rsub_iff (hstands : duration.Stands places span) (hbounded : span.Bounded bound)
    (hsize : ((bound : ℚ) + 1000000) * 10 ^ places ≤ 10 ^ 25) (start t : DateTime) {fuel : ℕ}
    (hfuel : 9 * bound + 100 ≤ fuel) :
    duration.rsub fuel start = .ok t ↔ t.micros = shifted start span.neg := by
  have hnonneg := hbounded.nonneg
  obtain ⟨negated, hneg, hnegStands⟩ := neg_stands (room_of_bound hnonneg hsize) hstands hbounded (by omega)
  have hadd : duration.rsub fuel start = add fuel start negated := by
    rw [Duration.rsub, hneg]
    rfl
  rw [hadd]
  exact add_eq_ok_iff hnegStands hbounded.neg hsize start t hfuel

/-- The part of a span that is not counted in months. -/
def Span.rest (span : Span) : ℤ :=
  (span.days + 7 * span.weeks) * 86400000000 + span.clock

theorem Span.rest_neg (span : Span) : span.neg.rest = -span.rest := by
  rw [Span.rest, Span.rest, Span.clock, Span.clock, Span.neg]
  dsimp only
  omega

theorem shifted_of_no_months (hmonths : 12 * span.years + span.months = 0) (start : DateTime) :
    shifted start span = start.micros + span.rest := by
  have hday : min start.day (gregorian.length start.monthIndex) = start.day := min_eq_left start.inMonth.le_length
  rw [shifted, hmonths, add_zero, hday, DateTime.micros, Span.rest]
  omega

/-- A span of months leads to a month and a day of it, at the same time of the day. -/
theorem month_of_shifted {t : DateTime} (hrest : span.rest = 0) (h : t.micros = shifted start span) :
    t.monthIndex = start.monthIndex + (12 * span.years + span.months) ∧
      t.day = min start.day (gregorian.length (start.monthIndex + (12 * span.years + span.months))) ∧
        t.clock = start.clock := by
  obtain ⟨index, hindex⟩ : ∃ index, start.monthIndex + (12 * span.years + span.months) = index := ⟨_, rfl⟩
  have hclock := t.clock_mem
  have hstartClock := start.clock_mem
  have hin : gregorian.InMonth index (min start.day (gregorian.length index)) :=
    ⟨le_min start.day_mem.1 (gregorian.length_pos index), min_le_right _ _⟩
  rw [Span.rest] at hrest
  rw [DateTime.micros, shifted, hindex] at h
  obtain ⟨hmonth, hday⟩ := t.inMonth.unique hin (by omega)
  rw [hindex]
  exact ⟨hmonth, hday, by omega⟩

/-- Subtracting a duration that has been added gives the start back, if it has only months and years exactly where
these do not cut the day of the start down, and always if it has none. -/
theorem rsub_add_iff (hstands : duration.Stands places span) (hbounded : span.Bounded bound)
    (hsize : ((bound : ℚ) + 1000000) * 10 ^ places ≤ 10 ^ 25)
    (hkind : 12 * span.years + span.months = 0 ∨ span.rest = 0) {start t : DateTime} {fuel : ℕ}
    (hfuel : 9 * bound + 100 ≤ fuel) (hadd : add fuel start duration = .ok t) :
    duration.rsub fuel t = .ok start ↔
      start.day ≤ gregorian.length (start.monthIndex + (12 * span.years + span.months)) := by
  have ht := (add_eq_ok_iff hstands hbounded hsize start t hfuel).mp hadd
  have hnegMonths : 12 * span.neg.years + span.neg.months = -(12 * span.years + span.months) := by
    rw [Span.neg]
    dsimp only
    omega
  rw [rsub_iff hstands hbounded hsize t start hfuel]
  obtain hmonths | hrest := hkind
  · have hback : shifted t span.neg = start.micros := by
      rw [shifted_of_no_months (by omega), ht, shifted_of_no_months hmonths, Span.rest_neg, add_neg_cancel_right]
    rw [hback, hmonths, add_zero]
    exact ⟨fun _ => start.inMonth.le_length, fun _ => rfl⟩
  · obtain ⟨hmonth, hday, hclock⟩ := month_of_shifted hrest ht
    have hstart := start.inMonth.le_length
    have hnegRest : span.neg.rest = 0 := by
      rw [Span.rest_neg, hrest, neg_zero]
    have hindex : t.monthIndex + (12 * span.neg.years + span.neg.months) = start.monthIndex := by
      rw [hnegMonths, hmonth, add_neg_cancel_right]
    constructor
    · intro hback
      obtain ⟨_, hdayBack, _⟩ := month_of_shifted hnegRest hback
      rw [hindex, hday] at hdayBack
      rw [hdayBack]
      exact (min_le_left _ _).trans (min_le_right _ _)
    · intro hle
      rw [min_eq_left hle] at hday
      rw [Span.rest] at hnegRest
      rw [shifted, hindex, hday, min_eq_left hstart, hclock, DateTime.micros]
      omega

/-- `2024-02-29T23:59:59.500000`. -/
def leap_day : DateTime :=
  ⟨2024, 2, 29, 23, 59, 59, 500000, by decide, by decide, by decide, by decide, by decide, by decide, by decide⟩

/-- A month after the 31st of January is the 29th of February, and a month before that is not the 31st again. -/
theorem rsub_add_iff_leap_day :
    add 109 end_of_january ⟨{ months := .ofInt 1 }, {}⟩ = .ok leap_day ∧
      Duration.rsub 109 ⟨{ months := .ofInt 1 }, {}⟩ leap_day ≠ .ok end_of_january := by
  have hstands : Duration.Stands 0 ⟨{ months := .ofInt 1 }, {}⟩ ⟨0, 1, 0, 0, 0, 0, 0⟩ :=
    ⟨whole_ofInt 0 0, whole_ofInt 0 1, whole_ofInt 0 0, whole_ofInt 0 0, whole_ofInt 0 0, whole_ofInt 0 0,
      by norm_num [toRat, significand, zero], by decide, by decide⟩
  have hbounded : Span.Bounded 1 ⟨0, 1, 0, 0, 0, 0, 0⟩ := by
    constructor <;> decide
  have hsize : (((1 : ℤ) : ℚ) + 1000000) * 10 ^ 0 ≤ 10 ^ 25 := by norm_num
  have hadd : add 109 end_of_january ⟨{ months := .ofInt 1 }, {}⟩ = .ok leap_day := by
    refine (add_eq_ok_iff hstands hbounded hsize end_of_january leap_day (by norm_num)).mpr ?_
    decide
  refine ⟨hadd, fun hback => ?_⟩
  have hle := (rsub_add_iff hstands hbounded hsize (.inr rfl) (by norm_num) hadd).mp hback
  exact absurd hle (by decide)

end whole

end solution_library.isoduration
