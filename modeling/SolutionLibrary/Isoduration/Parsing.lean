import SolutionLibrary.Isoduration.Types

namespace solution_library.isoduration

open text decimal_float

/-- What `parse_duration` raises. The last is an error of the decimal module and not one of the parser. -/
inductive Raised where
  | EmptyDuration (message : String)
  | IncorrectDesignator (message : String)
  | NoTime (message : String)
  | UnknownToken (message : String)
  | UnparseableValue (message : String)
  | InvalidFractional (message : String)
  | Overflow
  deriving DecidableEq

/-- A time that `arrow.get` returns. -/
structure Arrow where
  year : ℕ
  month : ℕ
  day : ℕ
  hour : ℕ
  minute : ℕ
  second : ℕ
  bounds : year ≤ 9999 ∧ month ≤ 12 ∧ day ≤ 31 ∧ hour ≤ 23 ∧ minute ≤ 59 ∧ second ≤ 59

/-- The letters of `str.isalpha`, and `arrow.get`: none where it raises a `ParserError` or a `ValueError`. -/
structure Runtime where
  isalpha : Char → Bool
  arrow_get : Text → Option Arrow
  isalpha_of_isAscii : ∀ c : Char, c.toNat < 128 → isalpha c = c.isAlpha

/-- Letters of ASCII only, and no datetimes. -/
def Runtime.ascii : Runtime :=
  ⟨Char.isAlpha, fun _ => none, fun _ _ => rfl⟩

def PERIOD_PREFIX : Char := 'P'

def TIME_PREFIX : Char := 'T'

def is_period (ch : Char) : Bool :=
  ch = PERIOD_PREFIX

def is_time (ch : Char) : Bool :=
  ch = TIME_PREFIX

def is_number (ch : Char) : Bool :=
  ch = '+' || ch = '-' || ch.isDigit || ch = '.' || ch = ',' || ch = 'e' || ch = 'E'

namespace Runtime

/-- No other letters become `e` in lower case. -/
def is_letter (runtime : Runtime) (ch : Char) : Bool :=
  runtime.isalpha ch && ch ≠ 'e' && ch ≠ 'E'

end Runtime

/-- Pops designators until the target: its value and the designators after it. None raises `OutOfDesignators`. -/
def parse_designator {κ : Type} : List (Char × κ) → Char → Option (κ × List (Char × κ))
  | [], _ => none
  | (key, value) :: designators, target =>
    if key = target then some (value, designators) else parse_designator designators target

def date_designators : List (Char × DateKey) :=
  [('Y', .years), ('M', .months), ('D', .days), ('W', .weeks)]

def time_designators : List (Char × TimeKey) :=
  [('H', .hours), ('M', .minutes), ('S', .seconds)]

/-- `sign * Decimal(tmp_value)` -/
def signed_value (sign : ℤ) (tmp_value : Text) : Except Raised Decimal :=
  match Decimal.parse tmp_value with
  | none => .error (.UnparseableValue ("Value could not be parsed as decimal: " ++ String.ofList tmp_value))
  | some value =>
    match DecimalFloat.mul context (.ofInt sign) value with
    | none => .error .Overflow
    | some value => .ok value

/-- What a character adds to `tmp_value`. -/
def number_char (ch : Char) : Char :=
  if ch = ',' then '.' else ch

namespace Runtime

variable (runtime : Runtime)

def parse_datetime_duration (duration_str : Text) (sign : ℤ) : Except Raised Duration :=
  match runtime.arrow_get duration_str with
  | none =>
    .error (.UnparseableValue ("Value could not be parsed as datetime: " ++ String.ofList duration_str))
  | some duration =>
    .ok ⟨{ years := .ofInt (sign * duration.year), months := .ofInt (sign * duration.month),
           days := .ofInt (sign * duration.day) },
      { hours := .ofInt (sign * duration.hour), minutes := .ofInt (sign * duration.minute),
        seconds := .ofInt (sign * duration.second) }⟩

/-- The loop of `parse_time_duration`. -/
def time_loop (sign : ℤ) : Text → List (Char × TimeKey) → TimeDuration → Text → Except Raised TimeDuration
  | [], _, duration, _ => .ok duration
  | ch :: rest, designators, duration, tmp_value =>
    if runtime.is_letter ch then
      match parse_designator designators ch with
      | none =>
        .error (.IncorrectDesignator
          ("Wrong time designator, or designator in the wrong order: " ++ String.singleton ch))
      | some (key, designators) =>
        match signed_value sign tmp_value with
        | .error error => .error error
        | .ok value => time_loop sign rest designators (duration.setattr key value) []
    else if is_number ch then time_loop sign rest designators duration (tmp_value ++ [number_char ch])
    else .error (.UnknownToken ("Token not recognizable: " ++ String.singleton ch))

def parse_time_duration (time_str : Text) (sign : ℤ) : Except Raised TimeDuration :=
  runtime.time_loop sign time_str time_designators {} []

/-- The loop of `parse_date_duration` over the characters of `date_str` that follow the consumed ones. Each letter is
looked up among all the designators. -/
def date_loop (sign : ℤ) (date_str : Text) : Text → Text → DateDuration → Text → Except Raised Duration
  | _, [], duration, _ => .ok ⟨duration, {}⟩
  | consumed, ch :: rest, duration, tmp_value =>
    if is_time ch then
      if tmp_value ≠ [] ∧ tmp_value = consumed then runtime.parse_datetime_duration date_str sign
      else if rest = [] then .error (.NoTime "Wanted time, no time provided")
      else
        match runtime.parse_time_duration rest sign with
        | .error error => .error error
        | .ok time => .ok ⟨duration, time⟩
    else if runtime.is_letter ch then
      match parse_designator date_designators ch with
      | none =>
        .error (.IncorrectDesignator
          ("Wrong date designator, or designator in the wrong order: " ++ String.singleton ch))
      | some (key, _) =>
        match signed_value sign tmp_value with
        | .error error => .error error
        | .ok value => date_loop sign date_str (consumed ++ [ch]) rest (duration.setattr key value) []
    else if is_number ch then
      date_loop sign date_str (consumed ++ [ch]) rest duration (tmp_value ++ [number_char ch])
    else .error (.UnknownToken ("Token not recognizable: " ++ String.singleton ch))

def parse_date_duration (date_str : Text) (sign : ℤ) : Except Raised Duration :=
  runtime.date_loop sign date_str [] date_str {} []

end Runtime

def is_integer (number : Decimal) : Bool :=
  number.numEq number.toIntegralValue

/-- The loop of `validate_fractional`: only the first of the values that is not zero may be fractional. -/
def fractional_loop : Bool → List Decimal → Bool
  | _, [] => true
  | true, value :: values => fractional_loop (value.coefficient = 0) values
  | false, value :: values => is_integer value && fractional_loop false values

def validate_fractional (duration : Duration) : Except Raised Unit :=
  if fractional_loop true duration.reversed then .ok ()
  else .error (.InvalidFractional "Only the lowest order component can be fractional")

namespace Runtime

def parse_duration (runtime : Runtime) (duration_str : Text) : Except Raised Duration :=
  match duration_str with
  | first :: second :: rest =>
    let sign := if first = '-' then -1 else 1
    let signed := first = '+' ∨ first = '-'
    let period := if signed then second else first
    let duration := if signed then rest else second :: rest
    if is_period period then
      match runtime.parse_date_duration duration sign with
      | .error error => .error error
      | .ok parsed_duration =>
        match validate_fractional parsed_duration with
        | .error error => .error error
        | .ok () => .ok parsed_duration
    else .error (.EmptyDuration "No prefix provided")
  | _ => .error (.EmptyDuration "No duration information provided")

end Runtime

end solution_library.isoduration
