import SolutionLibrary.Isoduration.Types
import SolutionLibrary.Library.Calendar
import SolutionLibrary.Library.DecimalArithmetic

namespace solution_library.isoduration

open decimal_float DecimalFloat calendar

/-- The clock and the date of a `datetime`. -/
@[ext] structure DateTime where
  year : ℤ
  month : ℤ
  day : ℤ
  hour : ℤ
  minute : ℤ
  second : ℤ
  microsecond : ℤ
  year_mem : 1 ≤ year ∧ year ≤ 9999
  month_mem : 1 ≤ month ∧ month ≤ 12
  day_mem : 1 ≤ day ∧ day ≤ daysInMonth year month
  hour_mem : 0 ≤ hour ∧ hour < 24
  minute_mem : 0 ≤ minute ∧ minute < 60
  second_mem : 0 ≤ second ∧ second < 60
  microsecond_mem : 0 ≤ microsecond ∧ microsecond < 1000000
  deriving DecidableEq

/-- What `add` raises: an overflow of the decimal module, or an exception of `datetime`. The loop over the days may go
on forever, and is `unfinished` after so many rounds. -/
inductive AddRaised where
  | Overflow
  | ValueError
  | OverflowError
  | unfinished
  deriving DecidableEq

/-- The result of an operation of the decimal module. -/
def operation (result : Option Decimal) : Except AddRaised Decimal :=
  result.elim (.error .Overflow) .ok

def quot2 (dividend divisor : Decimal) : Except AddRaised Decimal := do
  let quotient ← operation (div context dividend divisor)
  .ok (quotient.toIntegral .floor)

def mod2 (dividend divisor : Decimal) : Except AddRaised Decimal := do
  let quotient ← quot2 dividend divisor
  let product ← operation (mul context quotient divisor)
  operation (sub context dividend product)

def quot3 (value low high : Decimal) : Except AddRaised Decimal := do
  let dividend ← operation (sub context value low)
  let divisor ← operation (sub context high low)
  let quotient ← operation (div context dividend divisor)
  .ok (quotient.toIntegral .floor)

def mod3 (value low high : Decimal) : Except AddRaised Decimal := do
  let dividend ← operation (sub context value low)
  let divisor ← operation (sub context high low)
  let remainder ← mod2 dividend divisor
  operation (add context remainder low)

/-- `mod2(year, number) == 0`. -/
def divisible (year : Decimal) (number : ℤ) : Except AddRaised Bool := do
  let remainder ← mod2 year (.ofInt number)
  .ok (remainder.numEq .zero)

def is_leap_year (year : Decimal) : Except AddRaised Bool := do
  if ← divisible year 400 then .ok true
  else if ← divisible year 100 then .ok false
  else divisible year 4

def max_day_in_month (year month : Decimal) : Except AddRaised Decimal := do
  let normMonth ← mod3 month (.ofInt 1) (.ofInt 13)
  let norm_month := normMonth.toInt
  let years ← quot3 month (.ofInt 1) (.ofInt 13)
  let norm_year ← operation (add context year years)
  if norm_month ∈ [1, 3, 5, 7, 8, 10, 12] then .ok (.ofInt 31)
  else if norm_month ∈ [4, 6, 9, 11] then .ok (.ofInt 30)
  else do
    let leap ← is_leap_year norm_year
    if norm_month = 2 ∧ leap then .ok (.ofInt 29) else .ok (.ofInt 28)

/-- `a < b` of decimals. -/
def lt (a b : Decimal) : Bool :=
  a.significandAt (min a.exponent b.exponent) < b.significandAt (min a.exponent b.exponent)

/-- The year and the month after a carry. -/
def carry_month (end_year end_month : Decimal) (carry : ℤ) : Except AddRaised (Decimal × Decimal) := do
  let temp ← operation (add context end_month (.ofInt carry))
  let end_month ← mod3 temp (.ofInt 1) (.ofInt 13)
  let years ← quot3 temp (.ofInt 1) (.ofInt 13)
  let end_year ← operation (add context end_year years)
  .ok (end_year, end_month)

/-- The loop `while True` of `add`, for so many rounds at most. -/
def days_loop : ℕ → Decimal → Decimal → Decimal → Except AddRaised (Decimal × Decimal × Decimal)
  | 0, _, _, _ => .error .unfinished
  | fuel + 1, end_year, end_month, end_day => do
    if lt end_day (.ofInt 1) then
      let previous ← operation (sub context end_month (.ofInt 1))
      let max_day ← max_day_in_month end_year previous
      let end_day ← operation (add context end_day max_day)
      let (end_year, end_month) ← carry_month end_year end_month (-1)
      days_loop fuel end_year end_month end_day
    else
      let max_day ← max_day_in_month end_year end_month
      if lt max_day end_day then
        let end_day ← operation (sub context end_day max_day)
        let (end_year, end_month) ← carry_month end_year end_month 1
        days_loop fuel end_year end_month end_day
      else .ok (end_year, end_month, end_day)

/-- `int(value.to_integral_value(ROUND_HALF_UP))`. -/
def rounded (value : Decimal) : ℤ :=
  (value.toIntegral .halfUp).toInt

/-- An `int` of C. -/
def isCInt (n : ℤ) : Prop :=
  -2 ^ 31 ≤ n ∧ n < 2 ^ 31

instance (n : ℤ) : Decidable (isCInt n) :=
  inferInstanceAs (Decidable (_ ∧ _))

/-- The constructor of `datetime`. -/
def datetime (year month day hour minute second microsecond : ℤ) : Except AddRaised DateTime :=
  if ∀ n ∈ [year, month, day, hour, minute, second, microsecond], isCInt n then
    if h : (1 ≤ year ∧ year ≤ 9999) ∧ (1 ≤ month ∧ month ≤ 12) ∧ (1 ≤ day ∧ day ≤ daysInMonth year month) ∧
        (0 ≤ hour ∧ hour < 24) ∧ (0 ≤ minute ∧ minute < 60) ∧ (0 ≤ second ∧ second < 60) ∧
        0 ≤ microsecond ∧ microsecond < 1000000 then
      .ok ⟨year, month, day, hour, minute, second, microsecond,
        h.1, h.2.1, h.2.2.1, h.2.2.2.1, h.2.2.2.2.1, h.2.2.2.2.2.1, h.2.2.2.2.2.2⟩
    else .error .ValueError
  else .error .OverflowError

/-- A field of the clock with its addition: the digit and what is carried. -/
def clock_digit (start : ℤ) (value : Decimal) (carry : Option Decimal) (base : Decimal) :
    Except AddRaised (Decimal × Decimal) := do
  let temp ← operation (add context (.ofInt start) value)
  let temp ← carry.elim (.ok temp) fun carry => operation (add context temp carry)
  let digit ← mod2 temp base
  let quotient ← quot2 temp base
  .ok (digit, quotient)

/-- `Decimal("1e6")`. -/
def million : Decimal :=
  ⟨false, 1, 6⟩

def add (fuel : ℕ) (start : DateTime) (duration : Duration) : Except AddRaised DateTime := do
  -- Months.
  let temp ← operation (DecimalFloat.add context (.ofInt start.month) duration.date.months)
  let end_month ← mod3 temp (.ofInt 1) (.ofInt 13)
  let carry ← quot3 temp (.ofInt 1) (.ofInt 13)
  -- Years.
  let years ← operation (DecimalFloat.add context (.ofInt start.year) duration.date.years)
  let end_year ← operation (DecimalFloat.add context years carry)
  -- Microseconds.
  let seconds := duration.time.seconds.toIntegral .down
  let fraction ← operation (sub context duration.time.seconds seconds)
  let microseconds ← operation (mul context fraction million)
  let (end_microsecond, carry) ← clock_digit start.microsecond microseconds none million
  -- Seconds.
  let (end_second, carry) ← clock_digit start.second seconds (some carry) (.ofInt 60)
  -- Minutes.
  let (end_minute, carry) ← clock_digit start.minute duration.time.minutes (some carry) (.ofInt 60)
  -- Hours.
  let (end_hour, carry) ← clock_digit start.hour duration.time.hours (some carry) (.ofInt 24)
  -- Days.
  let end_max_day_in_month ← max_day_in_month end_year end_month
  let temp := if lt end_max_day_in_month (.ofInt start.day) then end_max_day_in_month else .ofInt start.day
  let withDays ← operation (DecimalFloat.add context temp duration.date.days)
  let weeks ← operation (mul context duration.date.weeks (.ofInt 7))
  let withWeeks ← operation (DecimalFloat.add context withDays weeks)
  let end_day ← operation (DecimalFloat.add context withWeeks carry)
  let (end_year, end_month, end_day) ← days_loop fuel end_year end_month end_day
  datetime (rounded end_year) (rounded end_month) (rounded end_day) (rounded end_hour) (rounded end_minute)
    (rounded end_second) (rounded end_microsecond)

namespace Duration

/-- `-duration`. -/
def neg (duration : Duration) : Except AddRaised Duration := do
  let years ← operation (DecimalFloat.neg context duration.date.years)
  let months ← operation (DecimalFloat.neg context duration.date.months)
  let days ← operation (DecimalFloat.neg context duration.date.days)
  let weeks ← operation (DecimalFloat.neg context duration.date.weeks)
  let hours ← operation (DecimalFloat.neg context duration.time.hours)
  let minutes ← operation (DecimalFloat.neg context duration.time.minutes)
  let seconds ← operation (DecimalFloat.neg context duration.time.seconds)
  .ok ⟨⟨years, months, days, weeks⟩, ⟨hours, minutes, seconds⟩⟩

/-- `start - duration`. -/
def rsub (fuel : ℕ) (duration : Duration) (start : DateTime) : Except AddRaised DateTime := do
  let negated ← duration.neg
  isoduration.add fuel start negated

end Duration

end solution_library.isoduration
