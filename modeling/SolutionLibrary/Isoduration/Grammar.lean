import SolutionLibrary.Isoduration.Parsing

namespace solution_library.isoduration

open text decimal_float

def DateKey.letter : DateKey → Char
  | .years => 'Y'
  | .months => 'M'
  | .days => 'D'
  | .weeks => 'W'

def TimeKey.letter : TimeKey → Char
  | .hours => 'H'
  | .minutes => 'M'
  | .seconds => 'S'

/-- The place of a designator in a time. -/
def TimeKey.order : TimeKey → ℕ
  | .hours => 0
  | .minutes => 1
  | .seconds => 2

/-- A number and its designator. -/
structure Field (κ : Type) where
  number : Text
  key : κ

/-- The text of a row of fields. -/
def fieldsText {κ : Type} (letter : κ → Char) (fields : List (Field κ)) : Text :=
  fields.flatMap fun field => field.number ++ [letter field.key]

def Numeric (text : Text) : Prop :=
  ∀ c ∈ text, is_number c = true

/-- The number in a text in which a comma may stand for the point. -/
def number (sign : ℤ) (text : Text) : Except Raised Decimal :=
  signed_value sign (text.map number_char)

/-- A field whose number is the value. -/
structure Valued {κ : Type} (sign : ℤ) (field : Field κ) (value : κ × Decimal) : Prop where
  numeric : Numeric field.number
  key_eq : field.key = value.1
  number_eq : number sign field.number = .ok value.2

abbrev ValuedFields {κ : Type} (sign : ℤ) (fields : List (Field κ)) (values : List (κ × Decimal)) : Prop :=
  List.Forall₂ (Valued sign) fields values

/-- The last of the values with a key; zero if there is none. -/
def lastValue {κ : Type} [DecidableEq κ] (values : List (κ × Decimal)) (key : κ) : Decimal :=
  values.foldl (fun last value => if value.1 = key then value.2 else last) .zero

def dateOf (values : List (DateKey × Decimal)) : DateDuration :=
  ⟨lastValue values .years, lastValue values .months, lastValue values .days, lastValue values .weeks⟩

def timeOf (values : List (TimeKey × Decimal)) : TimeDuration :=
  ⟨lastValue values .hours, lastValue values .minutes, lastValue values .seconds⟩

/-- The designators of the fields are in the order of the time. -/
def Ordered (fields : List (Field TimeKey)) : Prop :=
  fields.Pairwise fun a b => a.key.order < b.key.order

/-- A time designator that may follow the fields. -/
def Follows (fields : List (Field TimeKey)) (key : TimeKey) : Prop :=
  ∀ field ∈ fields, field.key.order < key.order

variable (runtime : Runtime) (sign : ℤ)

/-- What a text is as a time: fields in their order and what is after them, up to the first error. -/
inductive TimeReads : Text → Except Raised TimeDuration → Prop where
  | finished {fields values tail} : ValuedFields sign fields values → Ordered fields → Numeric tail →
    TimeReads (fieldsText TimeKey.letter fields ++ tail) (.ok (timeOf values))
  | designator {fields values tail ch rest} : ValuedFields sign fields values → Ordered fields → Numeric tail →
    runtime.is_letter ch = true → (∀ key, Follows fields key → key.letter ≠ ch) →
    TimeReads (fieldsText TimeKey.letter fields ++ (tail ++ ch :: rest))
      (.error (.IncorrectDesignator
        ("Wrong time designator, or designator in the wrong order: " ++ String.singleton ch)))
  | value {fields values tail error rest} (key : TimeKey) : ValuedFields sign fields values → Ordered fields →
    Numeric tail → Follows fields key → number sign tail = .error error →
    TimeReads (fieldsText TimeKey.letter fields ++ (tail ++ key.letter :: rest)) (.error error)
  | token {fields values tail ch rest} : ValuedFields sign fields values → Ordered fields → Numeric tail →
    runtime.is_letter ch = false → is_number ch = false →
    TimeReads (fieldsText TimeKey.letter fields ++ (tail ++ ch :: rest))
      (.error (.UnknownToken ("Token not recognizable: " ++ String.singleton ch)))

/-- A number at the start of a text that no comma and no field precedes: what is before the `T` of a datetime. -/
def StartsDatetime (fields : List (Field DateKey)) (tail : Text) : Prop :=
  fields = [] ∧ tail ≠ [] ∧ ',' ∉ tail

/-- What a text is as a date, with the time after it. The fields may stand in any order. -/
inductive DateReads : Text → Except Raised Duration → Prop where
  | finished {fields values tail} : ValuedFields sign fields values → Numeric tail →
    DateReads (fieldsText DateKey.letter fields ++ tail) (.ok ⟨dateOf values, {}⟩)
  | datetime {tail rest} : Numeric tail → StartsDatetime [] tail →
    DateReads (tail ++ 'T' :: rest) (runtime.parse_datetime_duration (tail ++ 'T' :: rest) sign)
  | noTime {fields values tail} : ValuedFields sign fields values → Numeric tail → ¬StartsDatetime fields tail →
    DateReads (fieldsText DateKey.letter fields ++ (tail ++ ['T'])) (.error (.NoTime "Wanted time, no time provided"))
  | time {fields values tail rest time} : ValuedFields sign fields values → Numeric tail →
    ¬StartsDatetime fields tail → rest ≠ [] → TimeReads runtime sign rest (.ok time) →
    DateReads (fieldsText DateKey.letter fields ++ (tail ++ 'T' :: rest)) (.ok ⟨dateOf values, time⟩)
  | timeError {fields values tail rest error} : ValuedFields sign fields values → Numeric tail →
    ¬StartsDatetime fields tail → rest ≠ [] → TimeReads runtime sign rest (.error error) →
    DateReads (fieldsText DateKey.letter fields ++ (tail ++ 'T' :: rest)) (.error error)
  | designator {fields values tail ch rest} : ValuedFields sign fields values → Numeric tail →
    ch ≠ 'T' → runtime.is_letter ch = true → (∀ key : DateKey, key.letter ≠ ch) →
    DateReads (fieldsText DateKey.letter fields ++ (tail ++ ch :: rest))
      (.error (.IncorrectDesignator
        ("Wrong date designator, or designator in the wrong order: " ++ String.singleton ch)))
  | value {fields values tail error rest} (key : DateKey) : ValuedFields sign fields values → Numeric tail →
    number sign tail = .error error →
    DateReads (fieldsText DateKey.letter fields ++ (tail ++ key.letter :: rest)) (.error error)
  | token {fields values tail ch rest} : ValuedFields sign fields values → Numeric tail →
    ch ≠ 'T' → runtime.is_letter ch = false → is_number ch = false →
    DateReads (fieldsText DateKey.letter fields ++ (tail ++ ch :: rest))
      (.error (.UnknownToken ("Token not recognizable: " ++ String.singleton ch)))

/-- The sign before the `P`. -/
inductive SignText : Text → ℤ → Prop where
  | none : SignText [] 1
  | plus : SignText ['+'] 1
  | minus : SignText ['-'] (-1)

/-- Only the least of the parts that are not zero may have a fraction. -/
def WholeAbove (duration : Duration) : Prop :=
  duration.elements.Pairwise fun higher lower => lower.toRat ≠ 0 → ∃ n : ℤ, higher.toRat = (n : ℚ)

/-- What a text is as a duration. -/
inductive DurationReads (runtime : Runtime) : Text → Except Raised Duration → Prop where
  | short {text} : text.length < 2 → DurationReads runtime text
      (.error (.EmptyDuration "No duration information provided"))
  | period {signText sign ch rest} : SignText signText sign → 2 ≤ (signText ++ ch :: rest).length → ch ≠ 'P' →
    (signText = [] → ch ≠ '+' ∧ ch ≠ '-') →
    DurationReads runtime (signText ++ ch :: rest) (.error (.EmptyDuration "No prefix provided"))
  | error {signText sign date_str error} : SignText signText sign → 2 ≤ (signText ++ 'P' :: date_str).length →
    DateReads runtime sign date_str (.error error) →
    DurationReads runtime (signText ++ 'P' :: date_str) (.error error)
  | fractional {signText sign date_str duration} : SignText signText sign →
    2 ≤ (signText ++ 'P' :: date_str).length → DateReads runtime sign date_str (.ok duration) →
    ¬WholeAbove duration → DurationReads runtime (signText ++ 'P' :: date_str)
      (.error (.InvalidFractional "Only the lowest order component can be fractional"))
  | ok {signText sign date_str duration} : SignText signText sign → 2 ≤ (signText ++ 'P' :: date_str).length →
    DateReads runtime sign date_str (.ok duration) → WholeAbove duration →
    DurationReads runtime (signText ++ 'P' :: date_str) (.ok duration)

section characters

variable {runtime : Runtime} {c : Char} {text : Text}

theorem is_letter_of_is_number (h : is_number c = true) : runtime.is_letter c = false := by
  by_cases he : c = 'e' ∨ c = 'E'
  · obtain rfl | rfl := he
    · simp [Runtime.is_letter]
    · simp [Runtime.is_letter]
  · have hascii : c.toNat < 128 ∧ c.isAlpha = false := by
      simp only [is_number, Bool.or_eq_true, decide_eq_true_eq] at h
      rw [not_or] at he
      obtain (((((rfl | rfl) | h) | rfl) | rfl) | h) | h := h
      · decide
      · decide
      · have hdigit : c.toNat ≤ 57 := by
          rw [Char.isDigit, Bool.and_eq_true, decide_eq_true_eq, decide_eq_true_eq] at h
          exact h.2
        refine ⟨by omega, Bool.eq_false_iff.mpr fun halpha => ?_⟩
        obtain hupper | hlower := Bool.or_eq_true_iff.mp halpha
        · have hcase : 'A'.val ≤ c.val ∧ c.val ≤ 'Z'.val := of_decide_eq_true hupper
          have hge : 65 ≤ c.toNat := hcase.1
          omega
        · have hcase : (decide ('a'.val ≤ c.val) && decide (c.val ≤ 'z'.val)) = true := hlower
          have hge : 97 ≤ c.toNat := of_decide_eq_true (Bool.and_eq_true_iff.mp hcase).1
          omega
      · decide
      · decide
      · exact absurd h he.1
      · exact absurd h he.2
    rw [Runtime.is_letter, runtime.isalpha_of_isAscii c hascii.1, hascii.2]
    rfl

theorem is_letter_dateKey (key : DateKey) : runtime.is_letter key.letter = true := by
  rw [Runtime.is_letter, runtime.isalpha_of_isAscii _ (by cases key <;> decide)]
  cases key <;> rfl

theorem is_letter_timeKey (key : TimeKey) : runtime.is_letter key.letter = true := by
  rw [Runtime.is_letter, runtime.isalpha_of_isAscii _ (by cases key <;> decide)]
  cases key <;> rfl

theorem is_time_of_is_number (h : is_number c = true) : is_time c = false := by
  by_contra htime
  rw [Bool.not_eq_false, is_time, decide_eq_true_eq] at htime
  rw [htime] at h
  cases h

theorem is_time_dateKey (key : DateKey) : is_time key.letter = false := by
  cases key <;> rfl

theorem is_time_eq_false_iff : is_time c = false ↔ c ≠ 'T' := by
  rw [is_time, TIME_PREFIX, decide_eq_false_iff_not]

theorem Numeric.nil : Numeric [] :=
  fun _ hmem => absurd hmem List.not_mem_nil

theorem Numeric.concat (h : Numeric text) (hc : is_number c = true) : Numeric (text ++ [c]) := by
  intro d hd
  obtain hd | hd := List.mem_append.mp hd
  · exact h d hd
  · rw [List.mem_singleton.mp hd]
    exact hc

theorem map_number_char_concat (text : Text) (c : Char) :
    (text ++ [c]).map number_char = text.map number_char ++ [number_char c] :=
  List.map_append

end characters

section values

variable {κ : Type} [DecidableEq κ] {sign : ℤ} {fields : List (Field κ)} {values : List (κ × Decimal)}

theorem lastValue_concat (values : List (κ × Decimal)) (value : κ × Decimal) (key : κ) :
    lastValue (values ++ [value]) key = if value.1 = key then value.2 else lastValue values key :=
  List.foldl_concat ..

theorem dateOf_concat (values : List (DateKey × Decimal)) (key : DateKey) (value : Decimal) :
    dateOf (values ++ [(key, value)]) = (dateOf values).setattr key value := by
  simp only [dateOf, lastValue_concat]
  cases key <;> rfl

theorem timeOf_concat (values : List (TimeKey × Decimal)) (key : TimeKey) (value : Decimal) :
    timeOf (values ++ [(key, value)]) = (timeOf values).setattr key value := by
  simp only [timeOf, lastValue_concat]
  cases key <;> rfl

theorem dateOf_eq_foldl (values : List (DateKey × Decimal)) :
    values.foldl (fun duration value => duration.setattr value.1 value.2) {} = dateOf values := by
  induction values using List.reverseRecOn with
  | nil => rfl
  | append_singleton values value ih => rw [List.foldl_concat, ih, dateOf_concat]

theorem timeOf_eq_foldl (values : List (TimeKey × Decimal)) :
    values.foldl (fun duration value => duration.setattr value.1 value.2) {} = timeOf values := by
  induction values using List.reverseRecOn with
  | nil => rfl
  | append_singleton values value ih => rw [List.foldl_concat, ih, timeOf_concat]

theorem fieldsText_concat {κ : Type} (letter : κ → Char) (fields : List (Field κ)) (field : Field κ) (rest : Text) :
    fieldsText letter (fields ++ [field]) ++ rest =
      fieldsText letter fields ++ (field.number ++ letter field.key :: rest) := by
  simp [fieldsText]

theorem ValuedFields.concat {κ : Type} {fields : List (Field κ)} {values : List (κ × Decimal)} {text : Text} {key : κ}
    {value : Decimal} (h : ValuedFields sign fields values) (htext : Numeric text)
    (hvalue : number sign text = .ok value) : ValuedFields sign (fields ++ [⟨text, key⟩]) (values ++ [(key, value)]) :=
  List.rel_append h (.cons ⟨htext, rfl, hvalue⟩ .nil)

end values

section designators

variable {κ : Type} {designators : List (Char × κ)} {ch : Char}

theorem parse_designator_eq_none (h : ∀ designator ∈ designators, designator.1 ≠ ch) :
    parse_designator designators ch = none := by
  induction designators with
  | nil => rfl
  | cons designator designators ih =>
    obtain ⟨hne, hrest⟩ := List.forall_mem_cons.mp h
    rw [parse_designator, if_neg hne]
    exact ih hrest

theorem parse_designator_date (key : DateKey) :
    ∃ rest, parse_designator date_designators key.letter = some (key, rest) := by
  cases key <;> exact ⟨_, rfl⟩

theorem parse_designator_date_eq_none (h : ∀ key : DateKey, key.letter ≠ ch) :
    parse_designator date_designators ch = none := by
  apply parse_designator_eq_none
  simp only [date_designators, List.forall_mem_cons]
  exact ⟨h .years, h .months, h .days, h .weeks, fun _ hmem => nomatch hmem⟩

/-- The time designators from a place on. -/
def designatorsFrom (bound : ℕ) : List (Char × TimeKey) :=
  time_designators.filter fun designator => bound ≤ designator.2.order

/-- The place after the last of the fields. -/
def boundAfter (bound : ℕ) (fields : List (Field TimeKey)) : ℕ :=
  fields.foldl (fun _ field => field.key.order + 1) bound

theorem parse_designator_time {bound : ℕ} {key : TimeKey} (h : bound ≤ key.order) :
    parse_designator (designatorsFrom bound) key.letter = some (key, designatorsFrom (key.order + 1)) := by
  have hbound : bound ≤ 2 := h.trans (by cases key <;> decide)
  obtain rfl | rfl | rfl : bound = 0 ∨ bound = 1 ∨ bound = 2 := by omega
  · cases key <;> rfl
  · cases key with
    | hours => exact absurd h (by decide)
    | minutes | seconds => rfl
  · cases key with
    | hours | minutes => exact absurd h (by decide)
    | seconds => rfl

theorem parse_designator_time_eq_none {bound : ℕ} (h : ∀ key : TimeKey, bound ≤ key.order → key.letter ≠ ch) :
    parse_designator (designatorsFrom bound) ch = none := by
  apply parse_designator_eq_none
  intro designator hdesignator
  obtain ⟨hmem, hbound⟩ := List.mem_filter.mp hdesignator
  have hletter : designator.1 = designator.2.letter := by
    simp only [time_designators, List.mem_cons, List.not_mem_nil, or_false] at hmem
    obtain rfl | rfl | rfl := hmem
    · rfl
    · rfl
    · rfl
  rw [hletter]
  exact h designator.2 (of_decide_eq_true hbound)

theorem boundAfter_concat (bound : ℕ) (fields : List (Field TimeKey)) (field : Field TimeKey) :
    boundAfter bound (fields ++ [field]) = field.key.order + 1 :=
  List.foldl_concat ..

theorem follows_iff {fields : List (Field TimeKey)} (h : Ordered fields) (key : TimeKey) :
    Follows fields key ↔ boundAfter 0 fields ≤ key.order := by
  induction fields using List.reverseRecOn with
  | nil => exact ⟨fun _ => Nat.zero_le _, fun _ _ hmem => nomatch hmem⟩
  | append_singleton fields field _ =>
    obtain ⟨_, _, hlast⟩ := List.pairwise_append.mp h
    rw [boundAfter_concat]
    constructor
    · intro hfollows
      exact hfollows field (List.mem_append_right _ List.mem_cons_self)
    · intro hle other hother
      obtain hother | hother := List.mem_append.mp hother
      · exact (hlast other hother field List.mem_cons_self).trans hle
      · rw [List.mem_singleton.mp hother]
        exact hle

theorem Ordered.concat {fields : List (Field TimeKey)} (h : Ordered fields) {key : TimeKey} (hkey : Follows fields key)
    (text : Text) : Ordered (fields ++ [⟨text, key⟩]) := by
  refine List.pairwise_append.mpr ⟨h, List.pairwise_singleton _ _, ?_⟩
  intro field hfield other hother
  rw [List.mem_singleton.mp hother]
  exact hkey field hfield

end designators

end solution_library.isoduration
