import SolutionLibrary.Library.DecimalText

namespace solution_library.isoduration

open text decimal_float

abbrev Decimal := DecimalFloat

/-- The default context of the decimal module. -/
def context : Context :=
  ⟨28, -999999, 999999, by decide, by decide⟩

/-- The bounds of the numbers that are constructed from a text. -/
def maxContext : Context :=
  ⟨999999999999999999, -999999999999999999, 999999999999999999, by decide, by decide⟩

/-- `Decimal(text)`; none is an `InvalidOperation`. -/
def Decimal.parse (text : Text) : Option Decimal :=
  (ofText text).filter fun d => d.Fits maxContext

inductive DateKey where
  | years
  | months
  | days
  | weeks
  deriving DecidableEq

inductive TimeKey where
  | hours
  | minutes
  | seconds
  deriving DecidableEq

structure DateDuration where
  years : Decimal := .zero
  months : Decimal := .zero
  days : Decimal := .zero
  weeks : Decimal := .zero
  deriving DecidableEq

structure TimeDuration where
  hours : Decimal := .zero
  minutes : Decimal := .zero
  seconds : Decimal := .zero
  deriving DecidableEq

structure Duration where
  date : DateDuration
  time : TimeDuration
  deriving DecidableEq

namespace DateDuration

def setattr (duration : DateDuration) (key : DateKey) (value : Decimal) : DateDuration :=
  match key with
  | .years => { duration with years := value }
  | .months => { duration with months := value }
  | .days => { duration with days := value }
  | .weeks => { duration with weeks := value }

end DateDuration

namespace TimeDuration

def setattr (duration : TimeDuration) (key : TimeKey) (value : Decimal) : TimeDuration :=
  match key with
  | .hours => { duration with hours := value }
  | .minutes => { duration with minutes := value }
  | .seconds => { duration with seconds := value }

end TimeDuration

namespace Duration

/-- The values in the order of `__iter__`. -/
def elements (duration : Duration) : List Decimal :=
  [duration.date.years, duration.date.months, duration.date.days, duration.date.weeks,
    duration.time.hours, duration.time.minutes, duration.time.seconds]

/-- The values in the order of `__reversed__`. -/
def reversed (duration : Duration) : List Decimal :=
  [duration.time.seconds, duration.time.minutes, duration.time.hours,
    duration.date.weeks, duration.date.days, duration.date.months, duration.date.years]

/-- Equality as `__eq__` of the dataclasses has it. -/
def numEq (a b : Duration) : Prop :=
  List.Forall₂ (fun x y => x.toRat = y.toRat) a.elements b.elements

end Duration

end solution_library.isoduration
