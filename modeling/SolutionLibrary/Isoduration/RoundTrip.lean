import SolutionLibrary.Isoduration.Exactness
import SolutionLibrary.Isoduration.Formatting

namespace solution_library.isoduration

open text decimal_float DecimalFloat

variable {runtime : Runtime} {sign : ℤ} {value : Decimal}

/-- A part after a formatted duration is read: a zero is not written and is read as `Decimal(0)`. -/
def dropZero (value : Decimal) : Decimal :=
  if isZero value then .zero else value

def DateDuration.dropZeros (duration : DateDuration) : DateDuration :=
  ⟨dropZero duration.years, dropZero duration.months, dropZero duration.days, dropZero duration.weeks⟩

def TimeDuration.dropZeros (duration : TimeDuration) : TimeDuration :=
  ⟨dropZero duration.hours, dropZero duration.minutes, dropZero duration.seconds⟩

def Duration.dropZeros (duration : Duration) : Duration :=
  ⟨duration.date.dropZeros, duration.time.dropZeros⟩

/-- Weeks beside other parts of a date. -/
def MixesWeeks (duration : Duration) : Prop :=
  isZero duration.date.weeks = false ∧
    (isZero duration.date.years = false ∨ isZero duration.date.months = false ∨ isZero duration.date.days = false)

/-- The sign of a duration is plus or minus. -/
def IsSign (sign : ℤ) : Prop :=
  sign = 1 ∨ sign = -1

/-- The number written for a part. -/
def presented (sign : ℤ) (value : Decimal) : Decimal :=
  ⟨xor value.negative (decide (sign < 0)), value.coefficient, value.exponent⟩

section numbers

theorem isZero_iff : isZero value = true ↔ value.coefficient = 0 :=
  decide_eq_true_iff

theorem toRat_dropZero (value : Decimal) : (dropZero value).toRat = value.toRat := by
  rw [dropZero]
  split_ifs with hzero
  · rw [toRat_eq_zero_iff.mpr (isZero_iff.mp hzero)]
    exact toRat_eq_zero_iff.mpr rfl
  · rfl

theorem isZero_dropZero (value : Decimal) : isZero (dropZero value) = isZero value := by
  rw [dropZero]
  split_ifs with hzero
  · rw [hzero]
    rfl
  · rfl

theorem numEq_dropZeros (duration : Duration) : duration.dropZeros.numEq duration := by
  simp only [Duration.numEq, Duration.elements, Duration.dropZeros, DateDuration.dropZeros, TimeDuration.dropZeros,
    List.forall₂_cons, toRat_dropZero, List.forall₂_nil_right_iff, and_self]

theorem fits_presented (h : value.Fits context) : (presented sign value).Fits context :=
  ⟨h.digitCount_le, h.etiny_le, h.adjusted_le⟩

theorem fits_maxContext (h : value.Fits context) : value.Fits maxContext := by
  obtain ⟨hdigits, hetiny, hadjusted⟩ := h
  refine ⟨?_, ?_, ?_⟩
  · exact hdigits.trans (by decide)
  · exact le_trans (by decide) hetiny
  · exact hadjusted.trans (by decide)

theorem mul_presented (hsign : IsSign sign) (h : value.Fits context) :
    DecimalFloat.mul context value (.ofInt sign) = some (presented sign value) := by
  have hpresented : (presented sign value).Fits context := fits_presented h
  obtain rfl | rfl := hsign
  · have hmul : (⟨xor value.negative false, value.coefficient * 1, value.exponent + 0⟩ : Decimal) =
        presented 1 value := by simp [presented]
    exact (congrArg (fix context) hmul).trans (fix_of_fits hpresented)
  · have hmul : (⟨xor value.negative true, value.coefficient * 1, value.exponent + 0⟩ : Decimal) =
        presented (-1) value := by simp [presented]
    exact (congrArg (fix context) hmul).trans (fix_of_fits hpresented)

theorem presented_mul (hsign : IsSign sign) (h : value.Fits context) :
    DecimalFloat.mul context (.ofInt sign) (presented sign value) = some value := by
  obtain rfl | rfl := hsign
  · have hmul : (⟨xor false (presented 1 value).negative, 1 * value.coefficient, 0 + value.exponent⟩ : Decimal) =
        value := by simp [presented]
    exact (congrArg (fix context) hmul).trans (fix_of_fits h)
  · have hmul : (⟨xor true (presented (-1) value).negative, 1 * value.coefficient, 0 + value.exponent⟩ : Decimal) =
        value := by simp [presented]
    exact (congrArg (fix context) hmul).trans (fix_of_fits h)

theorem is_number_of_isDigit {c : Char} (h : c.isDigit = true) : is_number c = true := by
  simp [is_number, h]

/-- The texts of numbers have characters of numbers only, and no commas. -/
theorem formatG_chars (value : Decimal) : ∀ c ∈ formatG value, is_number c = true ∧ c ≠ ',' := by
  have hdigit (c : Char) (h : c.isDigit = true) : is_number c = true ∧ c ≠ ',' :=
    ⟨is_number_of_isDigit h, fun heq => absurd (heq ▸ h) (by decide)⟩
  have hnumeral : ∀ c ∈ decimal.numeral value.coefficient, c.isDigit = true := fun c hc =>
    decimal.isDigit_of_mem_numeral hc
  have hplace (c : Char) := @isDigit_of_mem_place _ (dotplace value) hnumeral c
  intro c hc
  rw [formatG] at hc
  simp only [List.mem_append] at hc
  obtain hc | (hc | hc) | hc := hc
  · split_ifs at hc
    · rw [List.mem_singleton.mp hc]
      decide
    · cases hc
  · exact hdigit c (hplace c (List.mem_append_left _ hc))
  · split_ifs at hc
    · cases hc
    · obtain rfl | hc := List.mem_cons.mp hc
      · decide
      · exact hdigit c (hplace c (List.mem_append_right _ hc))
  · rw [exponentText] at hc
    split_ifs at hc
    · cases hc
    · simp only [List.mem_cons] at hc
      obtain rfl | rfl | hc := hc
      · decide
      · decide
      · exact hdigit c (decimal.isDigit_of_mem_numeral hc)
    · simp only [List.mem_cons] at hc
      obtain rfl | rfl | hc := hc
      · decide
      · decide
      · exact hdigit c (decimal.isDigit_of_mem_numeral hc)

theorem numeric_formatG (value : Decimal) : Numeric (formatG value) :=
  fun c hc => (formatG_chars value c hc).1

/-- What is written for a part is read as the part. -/
theorem number_formatG (hsign : IsSign sign) (h : value.Fits context) :
    number sign (formatG (presented sign value)) = .ok value := by
  have hcommas : (formatG (presented sign value)).map number_char = formatG (presented sign value) :=
    (map_number_char_eq_self_iff _).mpr fun hmem => (formatG_chars _ ',' hmem).2 rfl
  have hparse : Decimal.parse (formatG (presented sign value)) = some (presented sign value) := by
    rw [Decimal.parse, ofText_formatG, Option.filter_some, if_pos]
    exact decide_eq_true (fits_maxContext (fits_presented h))
  rw [number, hcommas, signed_value, hparse]
  dsimp only
  rw [presented_mul hsign h]

end numbers

section fields

variable {κ : Type}

def partFields (sign : ℤ) (key : κ) (value : Decimal) : List (Field κ) :=
  if isZero value then [] else [⟨formatG (presented sign value), key⟩]

def partValues (key : κ) (value : Decimal) : List (κ × Decimal) :=
  if isZero value then [] else [(key, value)]

/-- The fields of a formatted date. -/
def dateFields (sign : ℤ) (date : DateDuration) : List (Field DateKey) :=
  partFields sign .weeks date.weeks ++ (partFields sign .years date.years ++
    (partFields sign .months date.months ++ partFields sign .days date.days))

def dateValues (date : DateDuration) : List (DateKey × Decimal) :=
  partValues .weeks date.weeks ++ (partValues .years date.years ++
    (partValues .months date.months ++ partValues .days date.days))

def timeFields (sign : ℤ) (time : TimeDuration) : List (Field TimeKey) :=
  partFields sign .hours time.hours ++ (partFields sign .minutes time.minutes ++
    partFields sign .seconds time.seconds)

def timeValues (time : TimeDuration) : List (TimeKey × Decimal) :=
  partValues .hours time.hours ++ (partValues .minutes time.minutes ++ partValues .seconds time.seconds)

theorem valuedFields_part (hsign : IsSign sign) (key : κ) (h : value.Fits context) :
    ValuedFields sign (partFields sign key value) (partValues key value) := by
  rw [partFields, partValues]
  split_ifs
  · exact .nil
  · exact .cons ⟨numeric_formatG _, rfl, number_formatG hsign h⟩ .nil

theorem dateOf_dateValues (date : DateDuration) : dateOf (dateValues date) = date.dropZeros := by
  simp only [dateOf, dateValues, partValues, DateDuration.dropZeros, dropZero]
  cases isZero date.weeks <;> cases isZero date.years <;> cases isZero date.months <;> cases isZero date.days <;> rfl

theorem timeOf_timeValues (time : TimeDuration) : timeOf (timeValues time) = time.dropZeros := by
  simp only [timeOf, timeValues, partValues, TimeDuration.dropZeros, dropZero]
  cases isZero time.hours <;> cases isZero time.minutes <;> cases isZero time.seconds <;> rfl

theorem ordered_timeFields (sign : ℤ) (time : TimeDuration) : Ordered (timeFields sign time) := by
  have hpart (key : TimeKey) (value : Decimal) : ∀ field ∈ partFields sign key value, field.key = key := by
    intro field hfield
    rw [partFields] at hfield
    split_ifs at hfield
    · cases hfield
    · rw [List.mem_singleton.mp hfield]
  have hsingle (key : TimeKey) (value : Decimal) : Ordered (partFields sign key value) := by
    rw [Ordered, partFields]
    split_ifs
    · exact List.Pairwise.nil
    · exact List.pairwise_singleton _ _
  refine List.pairwise_append.mpr ⟨hsingle _ _, List.pairwise_append.mpr ⟨hsingle _ _, hsingle _ _, ?_⟩, ?_⟩
  · intro a ha b hb
    rw [hpart _ _ a ha, hpart _ _ b hb]
    decide
  · intro a ha b hb
    rw [hpart _ _ a ha]
    obtain hb | hb := List.mem_append.mp hb
    · rw [hpart _ _ b hb]
      decide
    · rw [hpart _ _ b hb]
      decide

theorem format_value_eq (hsign : IsSign sign) (h : value.Fits context) (letter : κ → Char) (key : κ) :
    format_value value sign (letter key) = .ok (fieldsText letter (partFields sign key value)) := by
  rw [format_value, partFields]
  split_ifs
  · rfl
  · rw [mul_presented hsign h]
    simp [fieldsText]

theorem fieldsText_append (letter : κ → Char) (fields others : List (Field κ)) :
    fieldsText letter (fields ++ others) = fieldsText letter fields ++ fieldsText letter others :=
  List.flatMap_append

theorem fieldsText_eq_nil_iff (letter : κ → Char) (fields : List (Field κ)) :
    fieldsText letter fields = [] ↔ fields = [] := by
  cases fields <;> simp [fieldsText]

end fields

section format

variable {duration : Duration}

theorem isSign_check_global_sign (duration : Duration) : IsSign (check_global_sign duration) := by
  simp only [check_global_sign]
  split_ifs
  · exact .inr rfl
  · exact .inl rfl
  · exact .inr rfl
  · exact .inl rfl
  · exact .inr rfl
  · exact .inl rfl
  · exact .inl rfl

theorem natAbs_of_signText {signText : Text} (h : SignText signText sign) : sign.natAbs = 1 := by
  cases h with
  | none => rfl
  | plus => rfl
  | minus => rfl

theorem signText_of_isSign (h : IsSign sign) : SignText (if sign < 0 then ['-'] else []) sign := by
  obtain rfl | rfl := h
  · exact .none
  · exact .minus

theorem validate_date_duration_iff (duration : Duration) :
    validate_date_duration duration.date = .ok () ↔ ¬MixesWeeks duration := by
  have hmixes : MixesWeeks duration ↔ (!isZero duration.date.weeks &&
      (!isZero duration.date.years || !isZero duration.date.months || !isZero duration.date.days)) = true := by
    simp only [MixesWeeks, Bool.and_eq_true, Bool.or_eq_true, Bool.not_eq_true', or_assoc]
  rw [hmixes, validate_date_duration]
  split_ifs with h
  · exact ⟨fun heq => heq.elim, fun hnot => absurd h hnot⟩
  · exact ⟨fun _ => h, fun _ => rfl⟩

/-- The text of a duration that does not mix weeks with other parts of the date. -/
theorem format_duration_eq (hfits : ∀ value ∈ duration.elements, value.Fits context)
    (hweeks : ¬MixesWeeks duration) :
    let sign := check_global_sign duration
    let date := fieldsText DateKey.letter (dateFields sign duration.date)
    let time := fieldsText TimeKey.letter (timeFields sign duration.time)
    format_duration duration = .ok (if date = [] ∧ time = [] then ['P', '0', 'D']
      else (if sign < 0 then ['-'] else []) ++ 'P' :: (date ++ if time = [] then [] else 'T' :: time)) := by
  intro sign date time
  have hsign : IsSign sign := isSign_check_global_sign duration
  simp only [Duration.elements, List.forall_mem_cons] at hfits
  obtain ⟨hyears, hmonths, hdays, hweeksFit, hhours, hminutes, hseconds, _⟩ := hfits
  have hdate : format_date duration.date sign = .ok ('P' :: date) := by
    have hletterW : format_value duration.date.weeks sign 'W' = .ok _ :=
      format_value_eq hsign hweeksFit DateKey.letter .weeks
    have hletterY : format_value duration.date.years sign 'Y' = .ok _ :=
      format_value_eq hsign hyears DateKey.letter .years
    have hletterM : format_value duration.date.months sign 'M' = .ok _ :=
      format_value_eq hsign hmonths DateKey.letter .months
    have hletterD : format_value duration.date.days sign 'D' = .ok _ := format_value_eq hsign hdays DateKey.letter .days
    rw [format_date, (validate_date_duration_iff duration).mpr hweeks, hletterW, hletterY, hletterM, hletterD]
    simp only [date, dateFields, fieldsText_append]
    rfl
  have htime : format_time duration.time sign = .ok (if time = [] then [] else 'T' :: time) := by
    have hletterH : format_value duration.time.hours sign 'H' = .ok _ :=
      format_value_eq hsign hhours TimeKey.letter .hours
    have hletterM : format_value duration.time.minutes sign 'M' = .ok _ :=
      format_value_eq hsign hminutes TimeKey.letter .minutes
    have hletterS : format_value duration.time.seconds sign 'S' = .ok _ :=
      format_value_eq hsign hseconds TimeKey.letter .seconds
    rw [format_time, hletterH, hletterM, hletterS]
    simp only [time, timeFields, fieldsText_append]
    rfl
  have hnone : 'P' :: date ++ (if time = [] then [] else 'T' :: time) = [PERIOD_PREFIX] ↔ date = [] ∧ time = [] := by
    rw [List.cons_append, PERIOD_PREFIX, List.cons.injEq, List.append_eq_nil_iff]
    split_ifs with htime
    · simp [htime]
    · simp [htime]
  have hformat : format_duration duration = .ok (if 'P' :: date ++ (if time = [] then [] else 'T' :: time) =
      [PERIOD_PREFIX] then PERIOD_PREFIX :: ['0', 'D']
      else (if sign < 0 then ['-'] else []) ++ ('P' :: date ++ if time = [] then [] else 'T' :: time)) := by
    rw [format_duration]
    dsimp only
    rw [hdate, htime]
    rfl
  rw [hformat]
  simp only [hnone]
  rfl

/-- The formatted parts are the fields of one date and one time. -/
theorem reads_fields (hsign : IsSign sign) (hfits : ∀ value ∈ duration.elements, value.Fits context) :
    DateReads runtime sign (fieldsText DateKey.letter (dateFields sign duration.date) ++
      if fieldsText TimeKey.letter (timeFields sign duration.time) = [] then []
      else 'T' :: fieldsText TimeKey.letter (timeFields sign duration.time)) (.ok duration.dropZeros) := by
  simp only [Duration.elements, List.forall_mem_cons] at hfits
  obtain ⟨hyears, hmonths, hdays, hweeks, hhours, hminutes, hseconds, _⟩ := hfits
  have hdate : ValuedFields sign (dateFields sign duration.date) (dateValues duration.date) :=
    List.rel_append (valuedFields_part hsign _ hweeks) (List.rel_append (valuedFields_part hsign _ hyears)
      (List.rel_append (valuedFields_part hsign _ hmonths) (valuedFields_part hsign _ hdays)))
  have htime : ValuedFields sign (timeFields sign duration.time) (timeValues duration.time) :=
    List.rel_append (valuedFields_part hsign _ hhours) (List.rel_append (valuedFields_part hsign _ hminutes)
      (valuedFields_part hsign _ hseconds))
  rw [Duration.dropZeros, ← dateOf_dateValues, ← timeOf_timeValues]
  split_ifs with hnil
  · have hnone : timeFields sign duration.time = [] := (fieldsText_eq_nil_iff _ _).mp hnil
    have hvalues : timeValues duration.time = [] := by
      rw [hnone] at htime
      exact List.forall₂_nil_left_iff.mp htime
    rw [hvalues]
    exact .finished hdate Numeric.nil
  · have hread : TimeReads runtime sign _ (.ok (timeOf (timeValues duration.time))) :=
      .finished htime (ordered_timeFields sign duration.time) Numeric.nil
    rw [List.append_nil] at hread
    exact .time hdate Numeric.nil (fun hstarts => hstarts.2.1 rfl) hnil hread

theorem reads_zero : DateReads runtime 1 ['0', 'D'] (.ok ⟨{}, {}⟩) := by
  have hfits : DecimalFloat.zero.Fits context := by
    refine ⟨?_, by decide, ?_⟩
    · exact (digitCount_zero ▸ by decide : digitCount 0 ≤ 28)
    · have hadjusted : DecimalFloat.zero.adjusted = 0 := by
        rw [adjusted, zero, digitCount_zero]
        rfl
      rw [hadjusted]
      decide
  have htext : formatG (presented 1 .zero) = ['0'] := by
    simp [formatG, presented, zero, dotplace, place, decimal.numeral, exponentText, decimal.digit]
  have hnumber : number 1 ['0'] = .ok .zero := htext ▸ number_formatG (.inl rfl) hfits
  have hvalues : ValuedFields 1 [⟨['0'], DateKey.days⟩] [(.days, .zero)] :=
    .cons ⟨by intro c hc; rw [List.mem_singleton.mp hc]; decide, rfl, hnumber⟩ .nil
  exact .finished hvalues Numeric.nil

theorem wholeAbove_dropZeros_iff (duration : Duration) : WholeAbove duration.dropZeros ↔ WholeAbove duration := by
  simp only [WholeAbove, Duration.elements, Duration.dropZeros, DateDuration.dropZeros, TimeDuration.dropZeros,
    List.pairwise_cons, List.forall_mem_cons, toRat_dropZero]

/-- A formatted duration is read back, unless it has a fraction above its least part. -/
theorem reads_format {text : Text} (hfits : ∀ value ∈ duration.elements, value.Fits context)
    (hformat : format_duration duration = .ok text) :
    (WholeAbove duration → DurationReads runtime text (.ok duration.dropZeros)) ∧
      (¬WholeAbove duration → DurationReads runtime text
        (.error (.InvalidFractional "Only the lowest order component can be fractional"))) := by
  have hsign := isSign_check_global_sign duration
  have hweeks : ¬MixesWeeks duration := by
    rw [← validate_date_duration_iff]
    rw [format_duration, format_date] at hformat
    cases hvalidate : validate_date_duration duration.date with
    | error error =>
      rw [hvalidate] at hformat
      cases hformat
    | ok => rfl
  have hread := @reads_fields runtime _ duration hsign hfits
  have htext := format_duration_eq hfits hweeks
  dsimp only at htext
  rw [hformat, Except.ok.injEq] at htext
  have hwhole := wholeAbove_dropZeros_iff duration
  by_cases hnil : fieldsText DateKey.letter (dateFields (check_global_sign duration) duration.date) = [] ∧
      fieldsText TimeKey.letter (timeFields (check_global_sign duration) duration.time) = []
  · rw [hnil.1, hnil.2, if_pos rfl] at hread
    have hzero : (.ok ⟨{}, {}⟩ : Except Raised Duration) = .ok duration.dropZeros :=
      parse_date_duration_of_reads hread
    rw [if_pos hnil] at htext
    rw [Except.ok.injEq] at hzero
    have hcoefficient : (DateDuration.years {}).toRat = 0 := toRat_eq_zero_iff.mpr rfl
    have habove : WholeAbove ⟨{}, {}⟩ := by
      simp only [WholeAbove, Duration.elements, List.pairwise_cons, List.forall_mem_cons, List.not_mem_nil,
        hcoefficient, ne_eq, not_true_eq_false, false_implies, implies_true, List.Pairwise.nil, and_self]
    rw [← hwhole, ← hzero, htext]
    exact ⟨fun _ => .ok .none (by decide) reads_zero habove, fun hnot => absurd habove hnot⟩
  · rw [if_neg hnil] at htext
    generalize hrest : fieldsText DateKey.letter (dateFields (check_global_sign duration) duration.date) ++
      (if fieldsText TimeKey.letter (timeFields (check_global_sign duration) duration.time) = [] then []
      else 'T' :: fieldsText TimeKey.letter (timeFields (check_global_sign duration) duration.time)) = rest at *
    have hne : 0 < rest.length := by
      rw [List.length_pos_iff]
      rintro rfl
      obtain ⟨hdate, htime⟩ := List.append_eq_nil_iff.mp hrest
      refine hnil ⟨hdate, ?_⟩
      by_contra hne
      rw [if_neg hne] at htime
      cases htime
    have hlength : 2 ≤ ((if check_global_sign duration < 0 then ['-'] else []) ++ 'P' :: rest).length := by
      rw [List.length_append, List.length_cons]
      omega
    have hsignText := signText_of_isSign hsign
    rw [htext]
    constructor
    · exact fun habove => .ok hsignText hlength hread (hwhole.mpr habove)
    · exact fun hnot => .fractional hsignText hlength hread (mt hwhole.mp hnot)

theorem format_duration_of_mixesWeeks (h : MixesWeeks duration) : format_duration duration =
    .error (.DurationFormattingException "Weeks are incompatible with other date designators") := by
  have hinvalid : validate_date_duration duration.date =
      .error (.DurationFormattingException "Weeks are incompatible with other date designators") := by
    have hnot := mt (validate_date_duration_iff duration).mp (not_not_intro h)
    rw [validate_date_duration] at hnot ⊢
    split_ifs at hnot ⊢
    · rfl
    · exact absurd rfl hnot
  rw [format_duration, format_date, hinvalid]
  rfl

/-- Formatting and parsing again: the text of a duration that fits the context is parsed as the same numbers, or is
rejected for a fraction above the least part. There is no text exactly if the duration mixes weeks with other parts
of the date. -/
theorem parse_format (runtime : Runtime) (duration : Duration)
    (hfits : ∀ value ∈ duration.elements, value.Fits context) :
    (MixesWeeks duration → format_duration duration =
      .error (.DurationFormattingException "Weeks are incompatible with other date designators")) ∧
    (¬MixesWeeks duration → ∃ text, format_duration duration = .ok text ∧
      (WholeAbove duration → runtime.parse_duration text = .ok duration.dropZeros ∧
        duration.dropZeros.numEq duration) ∧
      (¬WholeAbove duration → runtime.parse_duration text =
        .error (.InvalidFractional "Only the lowest order component can be fractional"))) := by
  refine ⟨format_duration_of_mixesWeeks, fun hweeks => ?_⟩
  have hformat := format_duration_eq hfits hweeks
  obtain ⟨hok, herror⟩ := @reads_format runtime duration _ hfits hformat
  refine ⟨_, hformat, fun habove => ⟨?_, numEq_dropZeros duration⟩, fun hnot => ?_⟩
  · exact parse_duration_of_reads (hok habove)
  · exact parse_duration_of_reads (herror hnot)

theorem parse_format_negative : ∃ text, format_duration ⟨{ days := ⟨true, 25, -1⟩ }, {}⟩ = .ok text ∧
    Runtime.ascii.parse_duration text = .ok ⟨{ days := ⟨true, 25, -1⟩ }, {}⟩ := by
  have hfits : ∀ value ∈ (⟨{ days := ⟨true, 25, -1⟩ }, {}⟩ : Duration).elements, value.Fits context := by
    decide +kernel
  obtain ⟨text, htext, hparse, _⟩ := (parse_format .ascii _ hfits).2 fun h => nomatch h.1
  have habove : WholeAbove ⟨{ days := ⟨true, 25, -1⟩ }, {}⟩ := by
    rw [← validate_fractional_iff]
    decide +kernel
  exact ⟨text, htext, (hparse habove).1⟩

end format

section parsed

variable {duration : Duration} {text : Text}

theorem fits_zero : DecimalFloat.zero.Fits context :=
  fits_of_coefficient_eq_zero rfl (by decide) (by decide)

theorem fits_of_number (h : number sign text = .ok value) : value.Fits context := by
  rw [number, signed_value] at h
  cases hparse : Decimal.parse (text.map number_char) with
  | none =>
    rw [hparse] at h
    cases h
  | some parsed =>
    rw [hparse] at h
    dsimp only at h
    cases hmul : DecimalFloat.mul context (.ofInt sign) parsed with
    | none =>
      rw [hmul] at h
      cases h
    | some product =>
      rw [hmul] at h
      cases h
      exact fits_of_mul hmul

theorem fits_lastValue {κ : Type} [DecidableEq κ] {fields : List (Field κ)} {values : List (κ × Decimal)}
    (h : ValuedFields sign fields values) (key : κ) : (lastValue values key).Fits context := by
  have hvalues : ∀ value ∈ values, value.2.Fits context := by
    induction h with
    | nil => exact fun _ hmem => absurd hmem List.not_mem_nil
    | cons hvalue _ ih => exact List.forall_mem_cons.mpr ⟨fits_of_number hvalue.number_eq, ih⟩
  clear h
  induction values using List.reverseRecOn with
  | nil => exact fits_zero
  | append_singleton values value ih =>
    rw [lastValue_concat]
    split_ifs
    · exact hvalues value (List.mem_append_right _ List.mem_cons_self)
    · exact ih fun other hother => hvalues other (List.mem_append_left _ hother)

theorem fits_ofInt {n : ℤ} (h : n.natAbs ≤ 9999) : (DecimalFloat.ofInt n).Fits context := by
  have hdigits : digitCount n.natAbs ≤ 4 := (digitCount_le_iff (by decide)).mpr (by omega)
  have hetiny : context.etiny ≤ 0 := by decide
  refine ⟨hdigits.trans (by decide), hetiny, ?_⟩
  rw [adjusted, ofInt, context]
  dsimp only
  omega

theorem fits_dateOf {fields : List (Field DateKey)} {values : List (DateKey × Decimal)}
    (h : ValuedFields sign fields values) {time : TimeDuration}
    (htime : time.hours.Fits context ∧ time.minutes.Fits context ∧ time.seconds.Fits context) :
    ∀ value ∈ (Duration.mk (dateOf values) time).elements, value.Fits context := by
  simp only [Duration.elements, dateOf, List.forall_mem_cons]
  refine ⟨fits_lastValue h _, fits_lastValue h _, fits_lastValue h _, fits_lastValue h _, htime.1, htime.2.1,
    htime.2.2, ?_⟩
  exact fun _ hmem => absurd hmem List.not_mem_nil

/-- The parts of a parsed duration are numbers of the context. -/
theorem fits_of_parse (h : runtime.parse_duration text = .ok duration) :
    ∀ value ∈ duration.elements, value.Fits context := by
  have hreads := (parse_duration_iff runtime text _).mp h
  cases hreads with
  | @ok signText sign date_str _ hsign _ hread _ =>
    generalize hresult : (Except.ok duration : Except Raised Duration) = result at hread
    cases hread with
    | finished hvalues _ =>
      cases hresult
      exact fits_dateOf hvalues ⟨fits_zero, fits_zero, fits_zero⟩
    | time hvalues _ _ _ htime =>
      cases hresult
      generalize htimeResult : (Except.ok _ : Except Raised TimeDuration) = result at htime
      cases htime with
      | finished htimes _ _ =>
        cases htimeResult
        exact fits_dateOf hvalues ⟨fits_lastValue htimes _, fits_lastValue htimes _, fits_lastValue htimes _⟩
      | designator => cases htimeResult
      | value key _ _ _ _ herror => cases htimeResult
      | token => cases htimeResult
    | @datetime tail rest _ _ =>
      rw [Runtime.parse_datetime_duration] at hresult
      cases harrow : runtime.arrow_get (tail ++ 'T' :: rest) with
      | none =>
        rw [harrow] at hresult
        cases hresult
      | some arrow =>
        rw [harrow] at hresult
        cases hresult
        have hfits (n : ℕ) (hn : n ≤ 9999) : (DecimalFloat.ofInt (sign * n)).Fits context := by
          apply fits_ofInt
          rw [Int.natAbs_mul, Int.natAbs_natCast, natAbs_of_signText hsign, one_mul]
          exact hn
        obtain ⟨hyear, hmonth, hday, hhour, hminute, hsecond⟩ := arrow.bounds
        simp only [Duration.elements, List.forall_mem_cons]
        refine ⟨hfits _ hyear, hfits _ (by omega), hfits _ (by omega), fits_zero, hfits _ (by omega),
          hfits _ (by omega), hfits _ (by omega), ?_⟩
        exact fun _ hmem => absurd hmem List.not_mem_nil
    | noTime => cases hresult
    | timeError => cases hresult
    | designator => cases hresult
    | value key _ _ herror => cases hresult
    | token => cases hresult

theorem check_global_sign_dropZeros (duration : Duration) :
    check_global_sign duration.dropZeros = check_global_sign duration := by
  have hnonPositive (value : Decimal) : nonPositive (dropZero value) = nonPositive value := by
    rw [dropZero]
    split_ifs with hzero
    · rw [nonPositive, nonPositive, decide_eq_true (isZero_iff.mp hzero), Bool.or_true]
      rfl
    · rfl
  simp only [check_global_sign, Duration.dropZeros, DateDuration.dropZeros, TimeDuration.dropZeros, isZero_dropZero,
    hnonPositive]

/-- The zeros that are lost in the text make no difference to it. -/
theorem format_duration_dropZeros (duration : Duration) :
    format_duration duration.dropZeros = format_duration duration := by
  have hvalue (value : Decimal) (sign : ℤ) (letter : Char) :
      format_value (dropZero value) sign letter = format_value value sign letter := by
    rw [format_value, format_value, isZero_dropZero, dropZero]
    split_ifs
    · rfl
    · rfl
  rw [format_duration, format_duration, check_global_sign_dropZeros]
  simp only [format_date, format_time, validate_date_duration, Duration.dropZeros, DateDuration.dropZeros,
    TimeDuration.dropZeros, isZero_dropZero, hvalue]

/-- A parsed duration that can be formatted has a text of its own: it is parsed as the same numbers, and what it is
parsed as has no other text. -/
theorem format_parsed (runtime : Runtime) (text : Text) (duration : Duration)
    (h : runtime.parse_duration text = .ok duration) :
    (MixesWeeks duration ∧ format_duration duration =
      .error (.DurationFormattingException "Weeks are incompatible with other date designators")) ∨
    ∃ canonical back, format_duration duration = .ok canonical ∧ runtime.parse_duration canonical = .ok back ∧
      back.numEq duration ∧ format_duration back = .ok canonical := by
  obtain ⟨hmixes, hformat⟩ := parse_format runtime duration (fits_of_parse h)
  by_cases hweeks : MixesWeeks duration
  · exact .inl ⟨hweeks, hmixes hweeks⟩
  · obtain ⟨canonical, htext, hparse, _⟩ := hformat hweeks
    have habove : WholeAbove duration := by
      have hreads := (parse_duration_iff runtime text _).mp h
      cases hreads with
      | ok _ _ _ habove => exact habove
    obtain ⟨hback, heq⟩ := hparse habove
    refine .inr ⟨canonical, duration.dropZeros, htext, hback, heq, ?_⟩
    rw [format_duration_dropZeros, htext]

theorem format_parsed_any_order : ∃ canonical back,
    format_duration ⟨{ years := ⟨false, 2, 0⟩, days := ⟨false, 1, 0⟩ }, {}⟩ = .ok canonical ∧
      Runtime.ascii.parse_duration canonical = .ok back ∧ format_duration back = .ok canonical := by
  have hparse : Runtime.ascii.parse_duration "P1D2Y".toList =
      .ok ⟨{ years := ⟨false, 2, 0⟩, days := ⟨false, 1, 0⟩ }, {}⟩ := by decide +kernel
  obtain ⟨hmixes, _⟩ | ⟨canonical, back, hformat, hback, _, hagain⟩ := format_parsed .ascii _ _ hparse
  · exact nomatch hmixes.1
  · exact ⟨canonical, back, hformat, hback, hagain⟩

end parsed

end solution_library.isoduration
