import SolutionLibrary.Isoduration.Grammar

namespace solution_library.isoduration

open text decimal_float DecimalFloat

/-- What `format_duration` raises. The last is an error of the decimal module. -/
inductive FormatRaised where
  | DurationFormattingException (message : String)
  | Overflow
  deriving DecidableEq

/-- The comparison with zero by `<=`. -/
def nonPositive (value : Decimal) : Bool :=
  value.negative || value.coefficient = 0

def isZero (value : Decimal) : Bool :=
  value.coefficient = 0

def check_global_sign (duration : Duration) : ℤ :=
  let is_date_zero := isZero duration.date.years && isZero duration.date.months && isZero duration.date.days &&
    isZero duration.date.weeks
  let is_time_zero := isZero duration.time.hours && isZero duration.time.minutes && isZero duration.time.seconds
  let is_date_negative := nonPositive duration.date.years && nonPositive duration.date.months &&
    nonPositive duration.date.days && nonPositive duration.date.weeks
  let is_time_negative := nonPositive duration.time.hours && nonPositive duration.time.minutes &&
    nonPositive duration.time.seconds
  if !is_date_zero && !is_time_zero then if is_date_negative && is_time_negative then -1 else 1
  else if !is_date_zero then if is_date_negative then -1 else 1
  else if !is_time_zero then if is_time_negative then -1 else 1
  else 1

def validate_date_duration (date_duration : DateDuration) : Except FormatRaised Unit :=
  if !isZero date_duration.weeks &&
      (!isZero date_duration.years || !isZero date_duration.months || !isZero date_duration.days) then
    .error (.DurationFormattingException "Weeks are incompatible with other date designators")
  else .ok ()

/-- A part with its designator; nothing if it is zero. -/
def format_value (value : Decimal) (global_sign : ℤ) (designator : Char) : Except FormatRaised Text :=
  if isZero value then .ok []
  else
    match DecimalFloat.mul context value (.ofInt global_sign) with
    | none => .error .Overflow
    | some value => .ok (formatG value ++ [designator])

def format_date (date_duration : DateDuration) (global_sign : ℤ) : Except FormatRaised Text := do
  validate_date_duration date_duration
  let weeks ← format_value date_duration.weeks global_sign 'W'
  let years ← format_value date_duration.years global_sign 'Y'
  let months ← format_value date_duration.months global_sign 'M'
  let days ← format_value date_duration.days global_sign 'D'
  return PERIOD_PREFIX :: (weeks ++ (years ++ (months ++ days)))

def format_time (time_duration : TimeDuration) (global_sign : ℤ) : Except FormatRaised Text := do
  let hours ← format_value time_duration.hours global_sign 'H'
  let minutes ← format_value time_duration.minutes global_sign 'M'
  let seconds ← format_value time_duration.seconds global_sign 'S'
  let time_duration_str := hours ++ (minutes ++ seconds)
  return if time_duration_str = [] then [] else TIME_PREFIX :: time_duration_str

def format_duration (duration : Duration) : Except FormatRaised Text := do
  let global_sign := check_global_sign duration
  let date_duration_str ← format_date duration.date global_sign
  let time_duration_str ← format_time duration.time global_sign
  let duration_str := date_duration_str ++ time_duration_str
  let sign_str := if global_sign < 0 then ['-'] else []
  return if duration_str = [PERIOD_PREFIX] then PERIOD_PREFIX :: ['0', 'D'] else sign_str ++ duration_str

end solution_library.isoduration
