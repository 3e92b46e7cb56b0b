import Mathlib.Algebra.Order.Group.Int
import Mathlib.Tactic.IntervalCases

namespace solution_library.calendar

/-- Consecutive months: how many days are before a month, and how many are in it. -/
structure Months where
  before : ℤ → ℤ
  length : ℤ → ℤ
  length_pos : ∀ n, 0 < length n
  before_succ : ∀ n, before (n + 1) = before n + length n

namespace Months

variable (months : Months)

/-- A day of a month. -/
structure InMonth (n day : ℤ) : Prop where
  one_le : 1 ≤ day
  le_length : day ≤ months.length n

instance (n day : ℤ) : Decidable (months.InMonth n day) :=
  decidable_of_iff (1 ≤ day ∧ day ≤ months.length n) ⟨fun h => ⟨h.1, h.2⟩, fun h => ⟨h.one_le, h.le_length⟩⟩

theorem before_add_length_le {m n : ℤ} (h : m < n) : months.before m + months.length m ≤ months.before n := by
  obtain ⟨k, rfl⟩ : ∃ k : ℕ, n = m + 1 + k := ⟨(n - (m + 1)).toNat, by omega⟩
  clear h
  induction k with
  | zero =>
    rw [Nat.cast_zero, add_zero, months.before_succ]
  | succ k ih =>
    have hpos := months.length_pos (m + 1 + k)
    have hsucc := months.before_succ (m + 1 + k)
    rw [Nat.cast_succ, ← add_assoc, hsucc]
    omega

variable {months}

/-- Every day is in one month. -/
theorem InMonth.unique {m n day other : ℤ} (hday : months.InMonth m day) (hother : months.InMonth n other)
    (h : months.before m + day = months.before n + other) : m = n ∧ day = other := by
  have hfirst := hday.one_le
  have hlast := hday.le_length
  have hotherFirst := hother.one_le
  have hotherLast := hother.le_length
  obtain hlt | rfl | hgt := lt_trichotomy m n
  · have hle := months.before_add_length_le hlt
    omega
  · exact ⟨rfl, by omega⟩
  · have hle := months.before_add_length_le hgt
    omega

/-- Days before the first or after the last of a month are carried to the month before or after it, until the day is
in the month. -/
theorem carry_induction (months : Months) {motive : ℤ → ℤ → Prop}
    (inMonth : ∀ n day, months.InMonth n day → motive n day)
    (below : ∀ n day, day < 1 → motive (n - 1) (day + months.length (n - 1)) → motive n day)
    (above : ∀ n day, 1 ≤ day → months.length n < day → motive (n + 1) (day - months.length n) → motive n day)
    (n day : ℤ) : motive n day := by
  have hpositive : ∀ (k : ℕ) (n day : ℤ), 1 ≤ day → day ≤ k → motive n day := by
    intro k
    induction k with
    | zero =>
      intro n day hone hle
      omega
    | succ k ih =>
      intro n day hone hle
      by_cases hlast : day ≤ months.length n
      · exact inMonth n day ⟨hone, hlast⟩
      · have hpos := months.length_pos n
        exact above n day hone (not_le.mp hlast) (ih (n + 1) _ (by omega) (by push_cast at hle; omega))
  have hnegative : ∀ (k : ℕ) (n day : ℤ), -k < day → motive n day := by
    intro k
    induction k with
    | zero =>
      intro n day hlt
      exact hpositive day.toNat n day (by omega) (by omega)
    | succ k ih =>
      intro n day hlt
      by_cases hone : 1 ≤ day
      · exact hpositive day.toNat n day hone (by omega)
      · have hpos := months.length_pos (n - 1)
        exact below n day (not_le.mp hone) (ih (n - 1) _ (by push_cast at hlt; omega))
  exact hnegative (1 - day).toNat n day (by omega)

end Months

def isLeap (year : ℤ) : Prop :=
  year % 4 = 0 ∧ (year % 100 ≠ 0 ∨ year % 400 = 0)

instance (year : ℤ) : Decidable (isLeap year) :=
  inferInstanceAs (Decidable (_ ∧ _))

def daysInMonth (year month : ℤ) : ℤ :=
  if month = 2 then if isLeap year then 29 else 28
  else if month = 4 ∨ month = 6 ∨ month = 9 ∨ month = 11 then 30
  else 31

/-- Days before January 1st of a year, from the one of year 1 on. -/
def daysBeforeYear (year : ℤ) : ℤ :=
  (year - 1) * 365 + (year - 1) / 4 - (year - 1) / 100 + (year - 1) / 400

/-- Days before the first of a month, from that of January on. -/
def daysBeforeMonth (year month : ℤ) : ℤ :=
  [0, 31, 59, 90, 120, 151, 181, 212, 243, 273, 304, 334].getD (month - 1).toNat 0 +
    if 2 < month ∧ isLeap year then 1 else 0

theorem daysInMonth_pos (year month : ℤ) : 28 ≤ daysInMonth year month := by
  rw [daysInMonth]
  split_ifs <;> omega

theorem daysInMonth_le (year month : ℤ) : daysInMonth year month ≤ 31 := by
  rw [daysInMonth]
  split_ifs <;> omega

theorem daysBeforeYear_succ (year : ℤ) :
    daysBeforeYear (year + 1) = daysBeforeYear year + (365 + if isLeap year then 1 else 0) := by
  rw [daysBeforeYear, daysBeforeYear, add_sub_cancel_right]
  split_ifs with hleap
  · rw [isLeap] at hleap
    omega
  · rw [isLeap] at hleap
    omega

theorem daysBeforeMonth_succ (year : ℤ) {month : ℤ} (hlow : 1 ≤ month) (hhigh : month ≤ 11) :
    daysBeforeMonth year (month + 1) = daysBeforeMonth year month + daysInMonth year month := by
  by_cases hleap : isLeap year <;> interval_cases month <;> simp [daysBeforeMonth, daysInMonth, hleap]

theorem daysBeforeMonth_december (year : ℤ) :
    daysBeforeMonth year 12 + daysInMonth year 12 = 365 + if isLeap year then 1 else 0 := by
  by_cases hleap : isLeap year <;> simp [daysBeforeMonth, daysInMonth, hleap]

/-- The proleptic Gregorian calendar, in which month 12 y + m is the one after m others of the year y. -/
def gregorian : Months where
  before n := daysBeforeYear (n / 12) + daysBeforeMonth (n / 12) (n % 12 + 1)
  length n := daysInMonth (n / 12) (n % 12 + 1)
  length_pos n := by
    have h := daysInMonth_pos (n / 12) (n % 12 + 1)
    omega
  before_succ n := by
    have hrange : n % 12 + 1 ≤ 11 ∨ n % 12 + 1 = 12 := by omega
    obtain hmonth | hmonth := hrange
    · have hyear : (n + 1) / 12 = n / 12 := by omega
      have hsucc : (n + 1) % 12 + 1 = n % 12 + 1 + 1 := by omega
      rw [hyear, hsucc, daysBeforeMonth_succ _ (by omega) hmonth, add_assoc]
    · have hyear : (n + 1) / 12 = n / 12 + 1 := by omega
      have hjanuary : (n + 1) % 12 + 1 = 1 := by omega
      have hzero : daysBeforeMonth (n / 12 + 1) 1 = 0 := by simp [daysBeforeMonth]
      rw [hyear, hjanuary, hzero, add_zero, hmonth, add_assoc, daysBeforeMonth_december, daysBeforeYear_succ]

theorem gregorian_length (n : ℤ) : gregorian.length n = daysInMonth (n / 12) (n % 12 + 1) :=
  rfl

end solution_library.calendar
