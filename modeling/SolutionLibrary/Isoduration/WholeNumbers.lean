import SolutionLibrary.Isoduration.Operations

namespace solution_library.isoduration

open decimal_float DecimalFloat calendar

/-- A decimal that stands for an integer. -/
abbrev Whole (places : ℕ) (value : Decimal) (n : ℤ) : Prop :=
  value.HasValue context places n

/-- Integers up to the size `room` are added, and divided with their remainder, without rounding. -/
structure Room (places : ℕ) (room : ℤ) : Prop where
  one_le : 1 ≤ room
  size : 20 * (room : ℚ) * 10 ^ places ≤ 10 ^ 28

theorem context_wide : context.Wide :=
  ⟨by decide, by decide⟩

section operations

variable {places : ℕ} {room : ℤ} {a b year month day : Decimal} {m n : ℤ}

theorem whole_ofInt (places : ℕ) (n : ℤ) : Whole places (.ofInt n) n := by
  have hexponent : (ofInt n).exponent = 0 := rfl
  refine ⟨?_, by rw [hexponent]; decide, by rw [hexponent]; omega⟩
  rw [toRat_of_nonneg hexponent.ge, significandAt, hexponent, significand, ofInt]
  simp only [sub_zero, Int.toNat_zero, pow_zero, mul_one]
  split_ifs with hneg
  · rw [decide_eq_true_eq] at hneg
    congr 1
    omega
  · rw [decide_eq_true_eq] at hneg
    congr 1
    omega

theorem Room.abs_mul_lt (h : Room places room) {x : ℚ} (hx : |x| ≤ room) : |x| * 10 ^ places < 10 ^ context.prec := by
  have hroom : (1 : ℚ) ≤ room := by exact_mod_cast h.one_le
  have hpow : (0 : ℚ) < 10 ^ places := by positivity
  have hprec : (10 : ℚ) ^ context.prec = 10 ^ 28 := rfl
  have hmul : |x| * 10 ^ places ≤ room * 10 ^ places := mul_le_mul_of_nonneg_right hx hpow.le
  have hpos : 0 < room * (10 : ℚ) ^ places := by positivity
  have hsize := h.size
  rw [hprec]
  linarith

theorem Room.abs_lt (h : Room places room) (hn : -room ≤ n ∧ n ≤ room) :
    |(n : ℚ)| * 10 ^ places < 10 ^ context.prec :=
  h.abs_mul_lt (by exact_mod_cast abs_le.mpr hn)

theorem Room.places_le (h : Room places room) : places ≤ context.prec := by
  have hroom : (1 : ℚ) ≤ room := by exact_mod_cast h.one_le
  have hpow : (0 : ℚ) < 10 ^ places := by positivity
  have hle : (10 : ℚ) ^ places ≤ 10 ^ 28 := by
    have hsize := h.size
    nlinarith
  exact (pow_le_pow_iff_right₀ (by norm_num)).mp hle

theorem operation_ok {result : Option Decimal} {value : Decimal} (h : result = some value) :
    operation result = .ok value := by
  rw [h]
  rfl

theorem add_whole (h : Room places room) (ha : Whole places a m) (hb : Whole places b n)
    (hsize : -room ≤ m + n ∧ m + n ≤ room) :
    ∃ sum, operation (DecimalFloat.add context a b) = .ok sum ∧ Whole places sum (m + n) := by
  have hlt := h.abs_lt hsize
  push_cast at hlt
  obtain ⟨sum, hsum, hvalue⟩ := ha.add hb context_wide hlt
  rw [← Int.cast_add] at hvalue
  exact ⟨sum, operation_ok hsum, hvalue⟩

theorem sub_whole (h : Room places room) (ha : Whole places a m) (hb : Whole places b n)
    (hsize : -room ≤ m - n ∧ m - n ≤ room) :
    ∃ difference, operation (sub context a b) = .ok difference ∧ Whole places difference (m - n) := by
  have hlt := h.abs_lt hsize
  push_cast at hlt
  obtain ⟨difference, hdifference, hvalue⟩ := ha.sub hb context_wide hlt
  rw [← Int.cast_sub] at hvalue
  exact ⟨difference, operation_ok hdifference, hvalue⟩

theorem mul_whole (h : Room places room) (ha : Whole places a m) (hb : b.toRat = n) (hexp : 0 ≤ b.exponent)
    (hsize : -room ≤ m * n ∧ m * n ≤ room) :
    ∃ product, operation (mul context a b) = .ok product ∧ Whole places product (m * n) := by
  have hlt := h.abs_lt hsize
  push_cast at hlt
  obtain ⟨product, hproduct, hvalue⟩ := ha.mul hb hexp context_wide hlt
  rw [← Int.cast_mul] at hvalue
  exact ⟨product, operation_ok hproduct, hvalue⟩

/-- A divisor: a positive integer that is written without a point. -/
structure Divisor (value : Decimal) (n : ℤ) : Prop where
  toRat_eq : value.toRat = n
  exponent_nonneg : 0 ≤ value.exponent
  pos : 0 < n
  le : n ≤ 10 ^ 28

theorem divisor_ofInt {n : ℤ} (hpos : 0 < n) (hle : n ≤ 10 ^ 28) : Divisor (.ofInt n) n :=
  ⟨(whole_ofInt 0 n).toRat_eq, le_rfl, hpos, hle⟩

theorem divisor_million : Divisor million 1000000 := by
  refine ⟨?_, by decide, by decide, by decide⟩
  norm_num [toRat, significand, million]

theorem div_whole (h : Room places room) (ha : Whole places a m) (hb : Divisor b n)
    (hsize : -room ≤ m ∧ m ≤ room) :
    ∃ quotient, operation (div context a b) = .ok quotient ∧ Whole places (quotient.toIntegral .floor) (m / n) := by
  obtain ⟨k, rfl⟩ : ∃ k : ℕ, n = k := ⟨n.toNat, (Int.toNat_of_nonneg hb.pos.le).symm⟩
  have hpow : (0 : ℚ) < 10 ^ places := by positivity
  have hcast : |(m : ℚ)| ≤ room := by exact_mod_cast abs_le.mpr hsize
  have hroom : 20 * |(m : ℚ)| * 10 ^ places ≤ 10 ^ context.prec := by
    have hmul : |(m : ℚ)| * 10 ^ places ≤ room * 10 ^ places := mul_le_mul_of_nonneg_right hcast hpow.le
    have hprec : (10 : ℚ) ^ context.prec = 10 ^ 28 := rfl
    have hsize := h.size
    rw [hprec]
    linarith
  obtain ⟨quotient, hquotient, hvalue⟩ := ha.div_floor (by exact_mod_cast hb.toRat_eq) (by exact_mod_cast hb.pos)
    (by exact_mod_cast hb.le) h.places_le context_wide hroom
  rw [Rat.floor_intCast_div_natCast] at hvalue
  exact ⟨quotient, operation_ok hquotient, hvalue⟩

theorem quot2_whole (h : Room places room) (ha : Whole places a m) (hb : Divisor b n)
    (hsize : -room ≤ m ∧ m ≤ room) :
    ∃ quotient, quot2 a b = .ok quotient ∧ Whole places quotient (m / n) := by
  obtain ⟨quotient, hquotient, hvalue⟩ := div_whole h ha hb hsize
  refine ⟨_, ?_, hvalue⟩
  rw [quot2, hquotient]
  rfl

theorem mod2_whole (h : Room places room) (ha : Whole places a m) (hb : Divisor b n)
    (hsize : n - room ≤ m ∧ m ≤ room - n) :
    ∃ remainder, mod2 a b = .ok remainder ∧ Whole places remainder (m % n) := by
  have hpos := hb.pos
  have hmod := Int.emod_nonneg m hpos.ne'
  have hmodLt := Int.emod_lt_of_pos m hpos
  have hdiv : m - m / n * n = m % n := by
    rw [Int.emod_def, mul_comm]
  have hproductSize : -room ≤ m / n * n ∧ m / n * n ≤ room := by omega
  obtain ⟨quotient, hquotient, hquotientWhole⟩ := quot2_whole h ha hb (by omega)
  obtain ⟨product, hproduct, hproductWhole⟩ :=
    mul_whole h hquotientWhole hb.toRat_eq hb.exponent_nonneg hproductSize
  have hdifferenceSize : -room ≤ m - m / n * n ∧ m - m / n * n ≤ room := by omega
  obtain ⟨remainder, hremainder, hremainderWhole⟩ := sub_whole h ha hproductWhole hdifferenceSize
  rw [hdiv] at hremainderWhole
  refine ⟨remainder, ?_, hremainderWhole⟩
  rw [mod2, hquotient]
  simp only [bind, Except.bind, hproduct, hremainder]

theorem sub_thirteen_one : operation (sub context (.ofInt 13) (.ofInt 1)) = .ok (.ofInt 12) := by
  decide

theorem quot3_month (h : Room places room) (ha : Whole places a m) (hsize : 14 - room ≤ m ∧ m ≤ room - 14) :
    ∃ quotient, quot3 a (.ofInt 1) (.ofInt 13) = .ok quotient ∧ Whole places quotient ((m - 1) / 12) := by
  obtain ⟨dividend, hdividend, hdividendWhole⟩ := sub_whole h ha (whole_ofInt places 1) (by omega)
  obtain ⟨quotient, hquotient, hvalue⟩ :=
    div_whole h hdividendWhole (divisor_ofInt (n := 12) (by decide) (by decide)) (by omega)
  refine ⟨_, ?_, hvalue⟩
  rw [quot3, hdividend]
  simp only [bind, Except.bind, sub_thirteen_one, hquotient]

theorem mod3_month (h : Room places room) (ha : Whole places a m) (hsize : 14 - room ≤ m ∧ m ≤ room - 14) :
    ∃ remainder, mod3 a (.ofInt 1) (.ofInt 13) = .ok remainder ∧ Whole places remainder ((m - 1) % 12 + 1) := by
  obtain ⟨dividend, hdividend, hdividendWhole⟩ := sub_whole h ha (whole_ofInt places 1) (by omega)
  obtain ⟨remainder, hremainder, hremainderWhole⟩ :=
    mod2_whole h hdividendWhole (divisor_ofInt (n := 12) (by decide) (by decide)) (by omega)
  obtain ⟨sum, hsum, hsumWhole⟩ := add_whole h hremainderWhole (whole_ofInt places 1) (by omega)
  refine ⟨sum, ?_, hsumWhole⟩
  rw [mod3, hdividend]
  simp only [bind, Except.bind, sub_thirteen_one, hremainder, hsum]

theorem toInt_whole (h : Whole places a m) : a.toInt = m :=
  toInt_eq h.toRat_eq

theorem rounded_whole (h : Whole places a m) : rounded a = m :=
  toInt_eq (toRat_toIntegral .halfUp h.toRat_eq)

theorem divisible_whole (h : Room places room) (ha : Whole places a m) (hn : 0 < n) (hle : n ≤ 400)
    (hsize : 400 - room ≤ m ∧ m ≤ room - 400) : divisible a n = .ok (decide (m % n = 0)) := by
  obtain ⟨remainder, hremainder, hvalue⟩ :=
    mod2_whole h ha (divisor_ofInt hn (hle.trans (by decide))) (by omega)
  have hzero : remainder.numEq .zero = decide (m % n = 0) := by
    have hzeroRat : (zero : Decimal).toRat = 0 := toRat_eq_zero_iff.mpr rfl
    rw [Bool.eq_iff_iff, numEq_iff, hzeroRat, hvalue.toRat_eq, decide_eq_true_eq, Int.cast_eq_zero]
  rw [divisible, hremainder]
  simp only [bind, Except.bind, hzero]

theorem is_leap_year_whole (h : Room places room) (ha : Whole places a m) (hsize : 400 - room ≤ m ∧ m ≤ room - 400) :
    is_leap_year a = .ok (decide (isLeap m)) := by
  rw [is_leap_year, divisible_whole h ha (by decide) (by decide) hsize,
    divisible_whole h ha (by decide) (by decide) hsize, divisible_whole h ha (by decide) (by decide) hsize]
  simp only [bind, Except.bind, decide_eq_true_eq]
  split_ifs with hfour hhundred
  · have hleap : isLeap m := ⟨by omega, .inr hfour⟩
    rw [decide_eq_true hleap]
  · have hleap : ¬isLeap m := fun hleap => hleap.2.elim (fun hne => hne hhundred) hfour
    rw [decide_eq_false hleap]
  · congr 2
    exact propext ⟨fun hdvd => ⟨hdvd, .inl hhundred⟩, fun hleap => hleap.1⟩

theorem max_day_of_month (year : ℤ) {month : ℤ} (hlow : 1 ≤ month) (hhigh : month ≤ 12) :
    (if month ∈ [1, 3, 5, 7, 8, 10, 12] then Except.ok (ofInt 31)
      else if month ∈ [4, 6, 9, 11] then .ok (ofInt 30)
      else if month = 2 ∧ decide (isLeap year) = true then .ok (ofInt 29) else .ok (ofInt 28)) =
    (.ok (ofInt (daysInMonth year month)) : Except AddRaised Decimal) := by
  interval_cases month <;> simp [daysInMonth]
  split_ifs <;> rfl

/-- The days of a month, also of one that stands for a month of another year. -/
theorem max_day_in_month_whole (h : Room places room) (hyear : Whole places year m) (hmonth : Whole places month n)
    (hsize : 500 - room ≤ m ∧ m ≤ room - 500) (hmonthSize : 0 ≤ n ∧ n ≤ 13) :
    ∃ max_day, max_day_in_month year month = .ok max_day ∧
      Whole places max_day (gregorian.length (12 * m + n - 1)) := by
  obtain ⟨norm_month, hnormMonth, hnormMonthWhole⟩ := mod3_month h hmonth (by omega)
  obtain ⟨years, hyears, hyearsWhole⟩ := quot3_month h hmonth (by omega)
  obtain ⟨norm_year, hnormYear, hnormYearWhole⟩ := add_whole h hyear hyearsWhole (by omega)
  have hleap := is_leap_year_whole h hnormYearWhole (by omega)
  have hlength : gregorian.length (12 * m + n - 1) = daysInMonth (m + (n - 1) / 12) ((n - 1) % 12 + 1) := by
    have hyearIndex : (12 * m + n - 1) / 12 = m + (n - 1) / 12 := by omega
    have hmonthIndex : (12 * m + n - 1) % 12 = (n - 1) % 12 := by omega
    rw [gregorian_length, hyearIndex, hmonthIndex]
  refine ⟨_, ?_, by rw [hlength]; exact whole_ofInt places _⟩
  rw [max_day_in_month, hnormMonth]
  simp only [bind, Except.bind, hyears, hnormYear, hleap, toInt_whole hnormMonthWhole]
  exact max_day_of_month _ (by omega) (by omega)

theorem lt_iff (a b : Decimal) : lt a b = true ↔ a.toRat < b.toRat := by
  have hpos : (0 : ℚ) < 10 ^ min a.exponent b.exponent := zpow_pos (by norm_num) _
  rw [toRat_eq_significandAt (min_le_left a.exponent b.exponent),
    toRat_eq_significandAt (min_le_right a.exponent b.exponent), mul_lt_mul_iff_left₀ hpos, lt, decide_eq_true_eq,
    Int.cast_lt]

theorem lt_whole (ha : Whole places a m) (hb : Whole places b n) : lt a b = decide (m < n) := by
  rw [Bool.eq_iff_iff, lt_iff, ha.toRat_eq, hb.toRat_eq, Int.cast_lt, decide_eq_true_eq]

/-- The year and the month of a month of the calendar. -/
structure IsMonth (places : ℕ) (year month : Decimal) (n : ℤ) : Prop where
  year : Whole places year (n / 12)
  month : Whole places month (n % 12 + 1)

theorem carry_month_whole (h : Room places room) (hmonth : IsMonth places year month n) {carry : ℤ}
    (hcarry : carry = -1 ∨ carry = 1) (hsize : 500 - room ≤ n ∧ n ≤ room - 500) :
    ∃ end_year end_month, carry_month year month carry = .ok (end_year, end_month) ∧
      IsMonth places end_year end_month (n + carry) := by
  obtain ⟨temp, htemp, htempWhole⟩ := add_whole h hmonth.month (whole_ofInt places carry) (by omega)
  obtain ⟨end_month, hmod, hmodWhole⟩ := mod3_month h htempWhole (by omega)
  obtain ⟨years, hyears, hyearsWhole⟩ := quot3_month h htempWhole (by omega)
  obtain ⟨end_year, hyear, hyearWhole⟩ := add_whole h hmonth.year hyearsWhole (by omega)
  have hmonthIndex : (n % 12 + 1 + carry - 1) % 12 + 1 = (n + carry) % 12 + 1 := by omega
  have hyearIndex : n / 12 + (n % 12 + 1 + carry - 1) / 12 = (n + carry) / 12 := by omega
  rw [hmonthIndex] at hmodWhole
  rw [hyearIndex] at hyearWhole
  refine ⟨end_year, end_month, ?_, hyearWhole, hmodWhole⟩
  rw [carry_month, htemp]
  simp only [bind, Except.bind, hmod, hyears, hyear]

/-- How often the loop goes round at most. -/
def rounds (day : ℤ) : ℤ :=
  if day < 1 then 32 - day else day

/-- The loop ends in the month of the day, counted from the beginning of the calendar. -/
theorem days_loop_whole (h : Room places room) (n count : ℤ) :
    ∀ (fuel : ℕ) (year month day : Decimal), IsMonth places year month n → Whole places day count →
      rounds count ≤ fuel → 1000 - room ≤ n - rounds count ∧ n + rounds count ≤ room - 1000 →
      ∃ end_year end_month end_day last rest,
        days_loop fuel year month day = .ok (end_year, end_month, end_day) ∧
          IsMonth places end_year end_month last ∧ Whole places end_day rest ∧ gregorian.InMonth last rest ∧
            gregorian.before last + rest = gregorian.before n + count := by
  induction n, count using gregorian.carry_induction with
  | inMonth n count hin =>
    intro fuel year month day hmonth hday hfuel hsize
    have hone := hin.one_le
    have hrounds : rounds count = count := if_neg (by omega)
    rw [hrounds] at hfuel hsize
    obtain ⟨fuel, rfl⟩ : ∃ k, fuel = k + 1 := ⟨fuel - 1, by omega⟩
    obtain ⟨max_day, hmax, hmaxWhole⟩ := max_day_in_month_whole h hmonth.year hmonth.month (by omega) (by omega)
    have hindex : 12 * (n / 12) + (n % 12 + 1) - 1 = n := by omega
    rw [hindex] at hmaxWhole
    refine ⟨year, month, day, n, count, ?_, hmonth, hday, hin, rfl⟩
    rw [days_loop, lt_whole hday (whole_ofInt places 1), if_neg (by rw [decide_eq_true_eq]; omega), hmax]
    simp only [bind, Except.bind]
    rw [lt_whole hmaxWhole hday, if_neg (by rw [decide_eq_true_eq]; exact not_lt.mpr hin.le_length)]
  | below n count hlow ih =>
    intro fuel year month day hmonth hday hfuel hsize
    have hlength := daysInMonth_pos ((n - 1) / 12) ((n - 1) % 12 + 1)
    have hlengthLe := daysInMonth_le ((n - 1) / 12) ((n - 1) % 12 + 1)
    rw [← gregorian_length] at hlength hlengthLe
    have hrounds : rounds count = 32 - count := if_pos hlow
    have hless : rounds (count + gregorian.length (n - 1)) ≤ rounds count - 1 := by
      rw [hrounds, rounds]
      split_ifs <;> omega
    have hpositive : 0 ≤ rounds (count + gregorian.length (n - 1)) := by
      rw [rounds]
      split_ifs <;> omega
    rw [hrounds] at hfuel hsize hless
    obtain ⟨fuel, rfl⟩ : ∃ k, fuel = k + 1 := ⟨fuel - 1, by omega⟩
    obtain ⟨previous, hprevious, hpreviousWhole⟩ := sub_whole h hmonth.month (whole_ofInt places 1) (by omega)
    obtain ⟨max_day, hmax, hmaxWhole⟩ := max_day_in_month_whole h hmonth.year hpreviousWhole (by omega) (by omega)
    have hindex : 12 * (n / 12) + (n % 12 + 1 - 1) - 1 = n - 1 := by omega
    rw [hindex] at hmaxWhole
    obtain ⟨end_day, hend, hendWhole⟩ := add_whole h hday hmaxWhole (by omega)
    obtain ⟨end_year, end_month, hcarry, hcarryMonth⟩ := carry_month_whole h hmonth (.inl rfl) (by omega)
    obtain ⟨last_year, last_month, last_day, last, rest, hloop, hlast, hrest, hin, hcount⟩ :=
      ih fuel end_year end_month end_day hcarryMonth hendWhole (by push_cast at hfuel; omega) (by omega)
    refine ⟨last_year, last_month, last_day, last, rest, ?_, hlast, hrest, hin, ?_⟩
    · rw [days_loop, lt_whole hday (whole_ofInt places 1), if_pos (decide_eq_true hlow), hprevious]
      simp only [bind, Except.bind, hmax, hend, hcarry, hloop]
    · have hsucc := gregorian.before_succ (n - 1)
      rw [sub_add_cancel] at hsucc
      omega
  | above n count hone habove ih =>
    intro fuel year month day hmonth hday hfuel hsize
    have hlength := daysInMonth_pos (n / 12) (n % 12 + 1)
    rw [← gregorian_length] at hlength
    have hrounds : rounds count = count := if_neg (by omega)
    have hless : rounds (count - gregorian.length n) = count - gregorian.length n := if_neg (by omega)
    rw [hrounds] at hfuel hsize
    rw [hless] at ih
    obtain ⟨fuel, rfl⟩ : ∃ k, fuel = k + 1 := ⟨fuel - 1, by omega⟩
    obtain ⟨max_day, hmax, hmaxWhole⟩ := max_day_in_month_whole h hmonth.year hmonth.month (by omega) (by omega)
    have hindex : 12 * (n / 12) + (n % 12 + 1) - 1 = n := by omega
    rw [hindex] at hmaxWhole
    obtain ⟨end_day, hend, hendWhole⟩ := sub_whole h hday hmaxWhole (by omega)
    obtain ⟨end_year, end_month, hcarry, hcarryMonth⟩ := carry_month_whole h hmonth (.inr rfl) (by omega)
    obtain ⟨last_year, last_month, last_day, last, rest, hloop, hlast, hrest, hin, hcount⟩ :=
      ih fuel end_year end_month end_day hcarryMonth hendWhole (by push_cast at hfuel; omega) (by omega)
    refine ⟨last_year, last_month, last_day, last, rest, ?_, hlast, hrest, hin, ?_⟩
    · rw [days_loop, lt_whole hday (whole_ofInt places 1), if_neg (by rw [decide_eq_true_eq]; omega), hmax]
      simp only [bind, Except.bind]
      rw [lt_whole hmaxWhole hday, if_pos (decide_eq_true habove)]
      simp only [hend, hcarry, hloop]
    · have hsucc := gregorian.before_succ n
      omega

theorem clock_digit_whole (h : Room places room) (start : ℤ) (hvalue : Whole places a m) {base : Decimal} {k : ℤ}
    (hbase : Divisor base k) (carry : Option Decimal) {c : ℤ}
    (hcarry : ∀ value, carry = some value → Whole places value c) (hnone : carry = none → c = 0) (hsize : k - room ≤ start + m ∧ start + m ≤ room - k)
    (hcarrySize : k - room ≤ start + m + c ∧ start + m + c ≤ room - k) :
    ∃ digit quotient d q, clock_digit start a carry base = .ok (digit, quotient) ∧ Whole places digit d ∧
      Whole places quotient q ∧ (0 ≤ d ∧ d < k) ∧ d + q * k = start + m + c := by
  have hpos := hbase.pos
  obtain ⟨temp, htemp, htempWhole⟩ := add_whole h (whole_ofInt places start) hvalue (by omega)
  obtain ⟨sum, hsum, hsumWhole⟩ : ∃ sum,
      (carry.elim (.ok temp) fun carry => operation (DecimalFloat.add context temp carry)) = .ok sum ∧
        Whole places sum (start + m + c) := by
    cases carry with
    | none => exact ⟨temp, rfl, by rw [hnone rfl, add_zero]; exact htempWhole⟩
    | some value => exact add_whole h htempWhole (hcarry value rfl) (by omega)
  obtain ⟨digit, hdigit, hdigitWhole⟩ := mod2_whole h hsumWhole hbase (by omega)
  obtain ⟨quotient, hquotient, hquotientWhole⟩ := quot2_whole h hsumWhole hbase (by omega)
  refine ⟨digit, quotient, _, _, ?_, hdigitWhole, hquotientWhole, ?_, Int.emod_add_ediv_mul _ _⟩
  · rw [clock_digit, htemp]
    simp only [bind, Except.bind, hsum, hdigit, hquotient]
  · exact ⟨Int.emod_nonneg _ hpos.ne', Int.emod_lt_of_pos _ hpos⟩

end operations

end solution_library.isoduration
