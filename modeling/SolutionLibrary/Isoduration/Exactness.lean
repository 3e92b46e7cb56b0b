import SolutionLibrary.Isoduration.Grammar

namespace solution_library.isoduration

open text decimal_float DecimalFloat

variable {runtime : Runtime} {sign : ℤ}

section time

/-- A number is collected in `tmp_value`. -/
theorem time_loop_append {tail : Text} (htail : Numeric tail) (rest : Text) (designators : List (Char × TimeKey))
    (duration : TimeDuration) (tmp_value : Text) :
    runtime.time_loop sign (tail ++ rest) designators duration tmp_value =
      runtime.time_loop sign rest designators duration (tmp_value ++ tail.map number_char) := by
  induction tail generalizing tmp_value with
  | nil => rw [List.map_nil, List.append_nil, List.nil_append]
  | cons c tail ih =>
    obtain ⟨hc, htail⟩ := List.forall_mem_cons.mp htail
    rw [List.cons_append, Runtime.time_loop, if_neg (by rw [is_letter_of_is_number hc]; exact Bool.false_ne_true),
      if_pos hc, ih htail, List.map_cons, List.append_assoc]
    rfl

/-- A field of the time is read. -/
theorem time_loop_field {tail : Text} (htail : Numeric tail) {bound : ℕ} {key : TimeKey} (hkey : bound ≤ key.order)
    (rest : Text) (duration : TimeDuration) :
    runtime.time_loop sign (tail ++ key.letter :: rest) (designatorsFrom bound) duration [] =
      match number sign tail with
      | .error error => .error error
      | .ok value => runtime.time_loop sign rest (designatorsFrom (key.order + 1)) (duration.setattr key value) [] := by
  rw [time_loop_append htail, List.nil_append, Runtime.time_loop, if_pos (is_letter_timeKey key),
    parse_designator_time hkey]
  rfl

theorem time_loop_fields {fields : List (Field TimeKey)} {values : List (TimeKey × Decimal)}
    (hvalues : ValuedFields sign fields values) (hordered : Ordered fields) (bound : ℕ)
    (hbound : ∀ field ∈ fields, bound ≤ field.key.order) (rest : Text) (duration : TimeDuration) :
    runtime.time_loop sign (fieldsText TimeKey.letter fields ++ rest) (designatorsFrom bound) duration [] =
      runtime.time_loop sign rest (designatorsFrom (boundAfter bound fields))
        (values.foldl (fun duration value => duration.setattr value.1 value.2) duration) [] := by
  induction hvalues generalizing bound duration with
  | nil => rfl
  | @cons field value fields values hvalue _ ih =>
    obtain ⟨hfirst, hordered⟩ := List.pairwise_cons.mp hordered
    have htext : fieldsText TimeKey.letter (field :: fields) ++ rest =
        field.number ++ field.key.letter :: (fieldsText TimeKey.letter fields ++ rest) := by
      simp [fieldsText]
    rw [htext, time_loop_field hvalue.numeric (hbound field List.mem_cons_self), hvalue.number_eq]
    dsimp only
    rw [hvalue.key_eq] at hfirst ⊢
    rw [ih hordered _ fun other hother => hfirst other hother]
    have hafter : boundAfter bound (field :: fields) = boundAfter (value.1.order + 1) fields := by
      rw [← hvalue.key_eq]
      rfl
    rw [hafter]
    rfl

/-- The state of the loop after the fields of a time. -/
theorem parse_time_duration_fields {fields : List (Field TimeKey)} {values : List (TimeKey × Decimal)}
    (hvalues : ValuedFields sign fields values) (hordered : Ordered fields) (rest : Text) :
    runtime.parse_time_duration (fieldsText TimeKey.letter fields ++ rest) sign =
      runtime.time_loop sign rest (designatorsFrom (boundAfter 0 fields)) (timeOf values) [] := by
  rw [Runtime.parse_time_duration, ← timeOf_eq_foldl]
  exact time_loop_fields hvalues hordered 0 (fun _ _ => Nat.zero_le _) rest {}

theorem parse_time_duration_of_reads {text : Text} {result : Except Raised TimeDuration}
    (h : TimeReads runtime sign text result) : runtime.parse_time_duration text sign = result := by
  cases h with
  | @finished fields values tail hvalues hordered htail =>
    rw [parse_time_duration_fields hvalues hordered, ← List.append_nil tail, time_loop_append htail]
    rfl
  | designator hvalues hordered htail hletter hnone =>
    have hdesignator := parse_designator_time_eq_none fun key hkey =>
      hnone key ((follows_iff hordered key).mpr hkey)
    rw [parse_time_duration_fields hvalues hordered, time_loop_append htail, Runtime.time_loop, if_pos hletter,
      hdesignator]
  | value key hvalues hordered htail hfollows herror =>
    have hkey := (follows_iff hordered key).mp hfollows
    rw [parse_time_duration_fields hvalues hordered, time_loop_field htail hkey, herror]
  | token hvalues hordered htail hletter hnumber =>
    rw [parse_time_duration_fields hvalues hordered, time_loop_append htail, Runtime.time_loop,
      if_neg (by rw [hletter]; exact Bool.false_ne_true), if_neg (by rw [hnumber]; exact Bool.false_ne_true)]

/-- From the state after a row of fields and a part of a number, by induction on the text that is left. -/
theorem reads_time_loop (rest : Text) {fields : List (Field TimeKey)} {values : List (TimeKey × Decimal)} {tail : Text}
    (hvalues : ValuedFields sign fields values) (hordered : Ordered fields) (htail : Numeric tail) :
    TimeReads runtime sign (fieldsText TimeKey.letter fields ++ (tail ++ rest))
      (runtime.time_loop sign rest (designatorsFrom (boundAfter 0 fields)) (timeOf values)
        (tail.map number_char)) := by
  induction rest generalizing fields values tail with
  | nil =>
    rw [List.append_nil]
    exact .finished hvalues hordered htail
  | cons ch rest ih =>
    rw [Runtime.time_loop]
    split_ifs with hletter hnumber
    · by_cases hkey : ∃ key, Follows fields key ∧ key.letter = ch
      · obtain ⟨key, hfollows, rfl⟩ := hkey
        rw [parse_designator_time ((follows_iff hordered key).mp hfollows)]
        dsimp only
        have hnumber : number sign tail = signed_value sign (tail.map number_char) := rfl
        cases hresult : signed_value sign (tail.map number_char) with
        | error error => exact .value key hvalues hordered htail hfollows (hnumber.trans hresult)
        | ok value =>
          have hread := ih (hvalues.concat htail (hnumber.trans hresult)) (hordered.concat hfollows tail)
            Numeric.nil
          rw [List.nil_append, fieldsText_concat, boundAfter_concat, timeOf_concat] at hread
          exact hread
      · have hnone : ∀ key : TimeKey, Follows fields key → key.letter ≠ ch := fun key hfollows heq =>
          hkey ⟨key, hfollows, heq⟩
        rw [parse_designator_time_eq_none fun key hle => hnone key ((follows_iff hordered key).mpr hle)]
        exact .designator hvalues hordered htail hletter hnone
    · have hread := ih hvalues hordered (htail.concat hnumber)
      rw [List.append_assoc, map_number_char_concat] at hread
      exact hread
    · rw [Bool.not_eq_true] at hletter hnumber
      exact .token hvalues hordered htail hletter hnumber

theorem parse_time_duration_iff (text : Text) (result : Except Raised TimeDuration) :
    runtime.parse_time_duration text sign = result ↔ TimeReads runtime sign text result := by
  constructor
  · intro h
    rw [← h]
    exact reads_time_loop text .nil List.Pairwise.nil Numeric.nil
  · exact parse_time_duration_of_reads

end time

section date

theorem date_loop_append {tail : Text} (htail : Numeric tail) (date_str consumed rest : Text)
    (duration : DateDuration) (tmp_value : Text) :
    runtime.date_loop sign date_str consumed (tail ++ rest) duration tmp_value =
      runtime.date_loop sign date_str (consumed ++ tail) rest duration (tmp_value ++ tail.map number_char) := by
  induction tail generalizing consumed tmp_value with
  | nil => rw [List.map_nil, List.append_nil, List.append_nil, List.nil_append]
  | cons c tail ih =>
    obtain ⟨hc, htail⟩ := List.forall_mem_cons.mp htail
    rw [List.cons_append, Runtime.date_loop, if_neg (by rw [is_time_of_is_number hc]; exact Bool.false_ne_true),
      if_neg (by rw [is_letter_of_is_number hc]; exact Bool.false_ne_true), if_pos hc, ih htail, List.map_cons,
      List.append_assoc, List.append_assoc]
    rfl

/-- A field of the date is read, whatever its key is. -/
theorem date_loop_field {tail : Text} (htail : Numeric tail) (key : DateKey) (date_str consumed rest : Text)
    (duration : DateDuration) :
    runtime.date_loop sign date_str consumed (tail ++ key.letter :: rest) duration [] =
      match number sign tail with
      | .error error => .error error
      | .ok value =>
        runtime.date_loop sign date_str (consumed ++ (tail ++ [key.letter])) rest (duration.setattr key value) [] := by
  obtain ⟨designators, hdesignator⟩ := parse_designator_date key
  rw [date_loop_append htail, List.nil_append, Runtime.date_loop,
    if_neg (by rw [is_time_dateKey]; exact Bool.false_ne_true), if_pos (is_letter_dateKey key), hdesignator,
    List.append_assoc]
  rfl

theorem date_loop_fields {fields : List (Field DateKey)} {values : List (DateKey × Decimal)}
    (hvalues : ValuedFields sign fields values) (date_str consumed rest : Text) (duration : DateDuration) :
    runtime.date_loop sign date_str consumed (fieldsText DateKey.letter fields ++ rest) duration [] =
      runtime.date_loop sign date_str (consumed ++ fieldsText DateKey.letter fields) rest
        (values.foldl (fun duration value => duration.setattr value.1 value.2) duration) [] := by
  induction hvalues generalizing consumed duration with
  | nil =>
    rw [fieldsText, List.flatMap_nil, List.append_nil]
    rfl
  | @cons field value fields values hvalue _ ih =>
    have htext : fieldsText DateKey.letter (field :: fields) =
        field.number ++ [field.key.letter] ++ fieldsText DateKey.letter fields := rfl
    rw [htext, List.append_assoc, List.append_assoc, List.singleton_append, date_loop_field hvalue.numeric,
      hvalue.number_eq]
    dsimp only
    rw [ih, hvalue.key_eq]
    simp only [List.append_assoc, List.singleton_append, List.foldl_cons]

/-- The state of the loop after the fields of a date and a part of a number. -/
theorem parse_date_duration_fields {fields : List (Field DateKey)} {values : List (DateKey × Decimal)} {tail : Text}
    (hvalues : ValuedFields sign fields values) (htail : Numeric tail) (rest : Text) :
    runtime.parse_date_duration (fieldsText DateKey.letter fields ++ (tail ++ rest)) sign =
      runtime.date_loop sign (fieldsText DateKey.letter fields ++ (tail ++ rest))
        (fieldsText DateKey.letter fields ++ tail) rest (dateOf values) (tail.map number_char) := by
  rw [Runtime.parse_date_duration, date_loop_fields hvalues, dateOf_eq_foldl, date_loop_append htail]
  rfl

theorem map_number_char_eq_self_iff (text : Text) : text.map number_char = text ↔ ',' ∉ text := by
  induction text with
  | nil => exact ⟨fun _ => List.not_mem_nil, fun _ => rfl⟩
  | cons c text ih =>
    rw [List.map_cons, List.cons.injEq, ih, List.mem_cons, not_or, number_char]
    split_ifs with hc
    · subst hc
      simp
    · exact and_congr_left fun _ => ⟨fun _ heq => hc heq.symm, fun _ => rfl⟩

/-- The comparison of `tmp_value` with the text before the `T`. -/
theorem eq_consumed_iff (fields : List (Field DateKey)) (tail : Text) :
    (tail.map number_char ≠ [] ∧ tail.map number_char = fieldsText DateKey.letter fields ++ tail) ↔
      StartsDatetime fields tail := by
  have hlength : tail.map number_char = fieldsText DateKey.letter fields ++ tail → fields = [] := by
    intro heq
    have hsum := congrArg List.length heq
    rw [List.length_map, List.length_append] at hsum
    cases fields with
    | nil => rfl
    | cons field fields =>
      simp only [fieldsText, List.flatMap_cons, List.length_append, List.length_cons] at hsum
      omega
  rw [StartsDatetime, ← map_number_char_eq_self_iff, ne_eq, List.map_eq_nil_iff]
  constructor
  · rintro ⟨hne, heq⟩
    obtain rfl := hlength heq
    exact ⟨rfl, hne, heq⟩
  · rintro ⟨rfl, hne, heq⟩
    exact ⟨hne, heq⟩

theorem parse_date_duration_of_reads {text : Text} {result : Except Raised Duration}
    (h : DateReads runtime sign text result) : runtime.parse_date_duration text sign = result := by
  have htime : is_time 'T' = true := rfl
  cases h with
  | @finished fields values tail hvalues htail =>
    rw [← List.append_nil tail, parse_date_duration_fields hvalues htail]
    rfl
  | @datetime tail rest htail hstarts =>
    have hvalues : ValuedFields sign ([] : List (Field DateKey)) [] := .nil
    refine (parse_date_duration_fields hvalues htail ('T' :: rest)).trans ?_
    rw [Runtime.date_loop, if_pos htime, if_pos ((eq_consumed_iff [] tail).mpr hstarts)]
    rfl
  | @noTime fields values tail hvalues htail hstarts =>
    rw [parse_date_duration_fields hvalues htail, Runtime.date_loop, if_pos htime,
      if_neg (mt (eq_consumed_iff fields tail).mp hstarts), if_pos rfl]
  | @time fields values tail rest time hvalues htail hstarts hne hread =>
    rw [parse_date_duration_fields hvalues htail, Runtime.date_loop, if_pos htime,
      if_neg (mt (eq_consumed_iff fields tail).mp hstarts), if_neg hne, parse_time_duration_of_reads hread]
  | @timeError fields values tail rest error hvalues htail hstarts hne hread =>
    rw [parse_date_duration_fields hvalues htail, Runtime.date_loop, if_pos htime,
      if_neg (mt (eq_consumed_iff fields tail).mp hstarts), if_neg hne, parse_time_duration_of_reads hread]
  | designator hvalues htail hne hletter hnone =>
    rw [parse_date_duration_fields hvalues htail, Runtime.date_loop,
      if_neg (by rw [is_time_eq_false_iff.mpr hne]; exact Bool.false_ne_true), if_pos hletter,
      parse_designator_date_eq_none hnone]
  | value key hvalues htail herror =>
    rw [Runtime.parse_date_duration, date_loop_fields hvalues, date_loop_field htail, herror]
  | token hvalues htail hne hletter hnumber =>
    rw [parse_date_duration_fields hvalues htail, Runtime.date_loop,
      if_neg (by rw [is_time_eq_false_iff.mpr hne]; exact Bool.false_ne_true),
      if_neg (by rw [hletter]; exact Bool.false_ne_true), if_neg (by rw [hnumber]; exact Bool.false_ne_true)]

theorem reads_date_loop (rest : Text) {fields : List (Field DateKey)} {values : List (DateKey × Decimal)} {tail : Text}
    (hvalues : ValuedFields sign fields values) (htail : Numeric tail) (date_str : Text)
    (hdate_str : date_str = fieldsText DateKey.letter fields ++ (tail ++ rest)) :
    DateReads runtime sign date_str
      (runtime.date_loop sign date_str (fieldsText DateKey.letter fields ++ tail) rest (dateOf values)
        (tail.map number_char)) := by
  induction rest generalizing fields values tail with
  | nil =>
    rw [hdate_str, List.append_nil]
    exact .finished hvalues htail
  | cons ch rest ih =>
    rw [Runtime.date_loop]
    split_ifs with htime hdatetime hrest hletter hnumber
    · obtain rfl : ch = 'T' := of_decide_eq_true htime
      obtain ⟨rfl, hstarts⟩ := (eq_consumed_iff fields tail).mp hdatetime
      rw [hdate_str]
      exact .datetime htail ⟨rfl, hstarts⟩
    · obtain rfl : ch = 'T' := of_decide_eq_true htime
      rw [hdate_str, hrest]
      exact .noTime hvalues htail (mt (eq_consumed_iff fields tail).mpr hdatetime)
    · obtain rfl : ch = 'T' := of_decide_eq_true htime
      have hstarts := mt (eq_consumed_iff fields tail).mpr hdatetime
      rw [hdate_str]
      cases hresult : runtime.parse_time_duration rest sign with
      | error error => exact .timeError hvalues htail hstarts hrest ((parse_time_duration_iff rest _).mp hresult)
      | ok time => exact .time hvalues htail hstarts hrest ((parse_time_duration_iff rest _).mp hresult)
    · by_cases hkey : ∃ key : DateKey, key.letter = ch
      · obtain ⟨key, rfl⟩ := hkey
        obtain ⟨designators, hdesignator⟩ := parse_designator_date key
        rw [hdesignator]
        dsimp only
        have hnumber : number sign tail = signed_value sign (tail.map number_char) := rfl
        cases hresult : signed_value sign (tail.map number_char) with
        | error error =>
          rw [hdate_str]
          exact .value key hvalues htail (hnumber.trans hresult)
        | ok value =>
          have hread := ih (hvalues.concat htail (hnumber.trans hresult)) Numeric.nil
            (by rw [hdate_str, List.nil_append, fieldsText_concat])
          rw [fieldsText_concat, dateOf_concat] at hread
          rw [List.append_assoc]
          exact hread
      · have hnone : ∀ key : DateKey, key.letter ≠ ch := fun key heq => hkey ⟨key, heq⟩
        rw [Bool.not_eq_true] at htime
        rw [parse_designator_date_eq_none hnone, hdate_str]
        exact .designator hvalues htail (is_time_eq_false_iff.mp htime) hletter hnone
    · have hread := ih hvalues (htail.concat hnumber) (by rw [hdate_str, List.append_assoc]; rfl)
      rw [map_number_char_concat, ← List.append_assoc] at hread
      exact hread
    · rw [Bool.not_eq_true] at htime hletter hnumber
      rw [hdate_str]
      exact .token hvalues htail (is_time_eq_false_iff.mp htime) hletter hnumber

theorem parse_date_duration_iff (text : Text) (result : Except Raised Duration) :
    runtime.parse_date_duration text sign = result ↔ DateReads runtime sign text result := by
  constructor
  · intro h
    rw [← h]
    exact reads_date_loop text .nil Numeric.nil text rfl
  · exact parse_date_duration_of_reads

end date

section fractional

theorem fractional_loop_false_iff (values : List Decimal) :
    fractional_loop false values = true ↔ ∀ value ∈ values, ∃ n : ℤ, value.toRat = n := by
  induction values with
  | nil => exact ⟨fun _ _ hmem => absurd hmem List.not_mem_nil, fun _ => rfl⟩
  | cons value values ih =>
    rw [fractional_loop, Bool.and_eq_true, ih, is_integer, numEq_toIntegralValue_iff, List.forall_mem_cons]

theorem fractional_loop_iff (values : List Decimal) :
    fractional_loop true values = true ↔
      values.Pairwise fun lower higher => lower.toRat ≠ 0 → ∃ n : ℤ, higher.toRat = (n : ℚ) := by
  induction values with
  | nil => exact ⟨fun _ => List.Pairwise.nil, fun _ => rfl⟩
  | cons value values ih =>
    rw [fractional_loop, List.pairwise_cons, ne_eq, toRat_eq_zero_iff]
    by_cases hzero : value.coefficient = 0
    · rw [decide_eq_true hzero, ih]
      exact ⟨fun h => ⟨fun _ _ hne => absurd hzero hne, h⟩, fun h => h.2⟩
    · rw [decide_eq_false hzero, fractional_loop_false_iff]
      constructor
      · intro h
        refine ⟨fun other hother _ => h other hother, ?_⟩
        exact List.pairwise_of_forall_mem_list fun _ _ other hother _ => h other hother
      · intro h other hother
        exact h.1 other hother hzero

theorem validate_fractional_iff (duration : Duration) :
    fractional_loop true duration.reversed = true ↔ WholeAbove duration := by
  have hreverse : duration.reversed = duration.elements.reverse := rfl
  rw [fractional_loop_iff, hreverse, List.pairwise_reverse, WholeAbove]

end fractional

section duration

/-- What `parse_duration` does with the text after the sign. -/
theorem parse_duration_eq {signText : Text} (hsign : SignText signText sign) {ch : Char} {rest : Text}
    (hlength : 2 ≤ (signText ++ ch :: rest).length) (hch : signText = [] → ch ≠ '+' ∧ ch ≠ '-') :
    runtime.parse_duration (signText ++ ch :: rest) =
      if is_period ch then
        match runtime.parse_date_duration rest sign with
        | .error error => .error error
        | .ok parsed_duration =>
          match validate_fractional parsed_duration with
          | .error error => .error error
          | .ok () => .ok parsed_duration
      else .error (.EmptyDuration "No prefix provided") := by
  cases hsign with
  | none =>
    obtain ⟨hplus, hminus⟩ := hch rfl
    cases rest with
    | nil => simp at hlength
    | cons second rest =>
      by_cases hperiod : is_period ch = true
      · cases hdate : runtime.parse_date_duration (second :: rest) 1 with
        | error error => simp [Runtime.parse_duration, hplus, hminus, hperiod, hdate]
        | ok duration =>
          cases hvalid : validate_fractional duration with
          | error error => simp [Runtime.parse_duration, hplus, hminus, hperiod, hdate, hvalid]
          | ok valid => simp [Runtime.parse_duration, hplus, hminus, hperiod, hdate, hvalid]
      · simp [Runtime.parse_duration, hplus, hminus, hperiod]
  | plus => rfl
  | minus => rfl

/-- A text of at least two characters has a sign or not, and a character after it. -/
theorem exists_signText {text : Text} (h : ¬text.length < 2) : ∃ signText sign ch rest,
    SignText signText sign ∧ text = signText ++ ch :: rest ∧ (signText = [] → ch ≠ '+' ∧ ch ≠ '-') := by
  match text with
  | [] => exact absurd (by decide) h
  | [_] => exact absurd (by simp) h
  | first :: second :: rest =>
    by_cases hplus : first = '+'
    · exact ⟨['+'], 1, second, rest, .plus, by rw [hplus]; rfl, fun hnil => absurd hnil (List.cons_ne_nil _ _)⟩
    · by_cases hminus : first = '-'
      · exact ⟨['-'], -1, second, rest, .minus, by rw [hminus]; rfl, fun hnil => absurd hnil (List.cons_ne_nil _ _)⟩
      · exact ⟨[], 1, first, second :: rest, .none, rfl, fun _ => ⟨hplus, hminus⟩⟩

theorem parse_duration_of_reads {text : Text} {result : Except Raised Duration}
    (h : DurationReads runtime text result) : runtime.parse_duration text = result := by
  have hperiod (signText : Text) : signText = [] → 'P' ≠ '+' ∧ 'P' ≠ '-' := fun _ => by decide
  cases h with
  | short hlength =>
    match text, hlength with
    | [], _ => rfl
    | [_], _ => rfl
    | _ :: _ :: rest, hlength => exact absurd hlength (by simp)
  | @period signText sign ch rest hsign hlength hne hch =>
    have hperiod : is_period ch = false := decide_eq_false hne
    rw [parse_duration_eq hsign hlength hch, hperiod]
    rfl
  | error hsign hlength hread =>
    rw [parse_duration_eq hsign hlength (hperiod _), parse_date_duration_of_reads hread]
    rfl
  | fractional hsign hlength hread hwhole =>
    rw [parse_duration_eq hsign hlength (hperiod _), parse_date_duration_of_reads hread]
    dsimp only
    rw [validate_fractional, if_neg (mt (validate_fractional_iff _).mp hwhole)]
    rfl
  | ok hsign hlength hread hwhole =>
    rw [parse_duration_eq hsign hlength (hperiod _), parse_date_duration_of_reads hread]
    dsimp only
    rw [validate_fractional, if_pos ((validate_fractional_iff _).mpr hwhole)]
    rfl

theorem reads_parse_duration (text : Text) : DurationReads runtime text (runtime.parse_duration text) := by
  by_cases hshort : text.length < 2
  · rw [parse_duration_of_reads (.short hshort)]
    exact .short hshort
  · obtain ⟨signText, sign, ch, rest, hsign, rfl, hch⟩ := exists_signText hshort
    have hlength := Nat.le_of_not_lt hshort
    by_cases hperiod : ch = 'P'
    · subst hperiod
      cases hdate : runtime.parse_date_duration rest sign with
      | error error =>
        have hreads := DurationReads.error hsign hlength ((parse_date_duration_iff rest _).mp hdate)
        rw [parse_duration_of_reads hreads]
        exact hreads
      | ok duration =>
        have hdate := (parse_date_duration_iff rest _).mp hdate
        by_cases hwhole : WholeAbove duration
        · rw [parse_duration_of_reads (.ok hsign hlength hdate hwhole)]
          exact .ok hsign hlength hdate hwhole
        · rw [parse_duration_of_reads (.fractional hsign hlength hdate hwhole)]
          exact .fractional hsign hlength hdate hwhole
    · have hreads : DurationReads runtime _ _ := .period hsign hlength hperiod hch
      rw [parse_duration_of_reads hreads]
      exact hreads

/-- Each text has one reading, and it is what `parse_duration` returns or raises. -/
theorem parse_duration_iff (runtime : Runtime) (text : Text) (result : Except Raised Duration) :
    runtime.parse_duration text = result ↔ DurationReads runtime text result := by
  constructor
  · intro h
    rw [← h]
    exact reads_parse_duration text
  · exact parse_duration_of_reads

end duration

end solution_library.isoduration
