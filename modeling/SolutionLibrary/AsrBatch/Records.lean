import SolutionLibrary.AsrBatch.Script

open solution_library.loop
open solution_library.object_storage
open solution_library.store

namespace solution_library.asr_batch

/-- No key is both a log key and an output key. -/
def Config.Separate (config : Config) : Prop :=
  ∀ key : Key, config.s3_prefix_log <+: key → ¬ config.s3_prefix_output <+: key

/-- The keys of the log objects that the script writes. -/
def Config.LogKey (config : Config) (key : Key) : Prop :=
  ∃ name : Key, key = config.s3_prefix_log ++ name ++ ".json".toList

section keys

variable {config : Config} {key other : Key}

theorem Config.Separate.of_incomparable (hlog : ¬ config.s3_prefix_log <+: config.s3_prefix_output)
    (hout : ¬ config.s3_prefix_output <+: config.s3_prefix_log) : config.Separate := by
  intro key hkey hkey'
  obtain h | h := List.prefix_or_prefix_of_prefix hkey hkey'
  · exact hlog h
  · exact hout h

theorem logKey_key_process (config : Config) (key : Key) : config.LogKey (key_process config key) :=
  ⟨key.drop config.s3_prefix.length, rfl⟩

theorem Config.LogKey.under_log (h : config.LogKey key) : config.s3_prefix_log <+: key := by
  obtain ⟨name, rfl⟩ := h
  rw [List.append_assoc]
  exact List.prefix_append _ _

theorem Config.LogKey.json_suffix (h : config.LogKey key) : ".json".toList <:+ key := by
  obtain ⟨name, rfl⟩ := h
  exact List.suffix_append _ _

theorem key_process_inj (hkey : config.s3_prefix <+: key) (hother : config.s3_prefix <+: other)
    (h : key_process config key = key_process config other) : key = other := by
  apply eq_of_drop_eq hkey hother
  simpa [key_process] using h

theorem result_key_inj (hkey : config.s3_prefix_log <+: key) (hother : config.s3_prefix_log <+: other)
    (h : result_key config key = result_key config other) : key = other :=
  eq_of_drop_eq hkey hother (List.append_cancel_left h)

theorem output_prefix_result_key (config : Config) (key : Key) : config.s3_prefix_output <+: result_key config key :=
  List.prefix_append _ _

theorem txt_suffix_result_text_key (config : Config) (key : Key) :
    ".txt".toList <:+ result_text_key config key :=
  List.suffix_append _ _

/-- No key ends both ways. -/
theorem not_txt_suffix (h : ".json".toList <:+ key) : ¬ ".txt".toList <:+ key := by
  intro htxt
  have hlast : ".json".toList.getLast (by decide) = ".txt".toList.getLast (by decide) := by
    rw [h.getLast, htxt.getLast]
  exact absurd hlast (by decide)

theorem Config.Separate.ne_result_key (h : config.Separate) (hlog : config.s3_prefix_log <+: other) (key : Key) :
    other ≠ result_key config key := by
  rintro rfl
  exact h _ hlog (output_prefix_result_key config key)

theorem ne_result_text_key (hjson : ".json".toList <:+ other) (key : Key) : other ≠ result_text_key config key := by
  rintro rfl
  exact not_txt_suffix hjson (txt_suffix_result_text_key config key)

theorem result_key_logKey (config : Config) (name : Key) :
    result_key config (config.s3_prefix_log ++ name ++ ".json".toList) =
      config.s3_prefix_output ++ name ++ ".json".toList := by
  rw [result_key, List.append_assoc, List.drop_left, List.append_assoc]

theorem result_text_key_logKey (config : Config) (name : Key) :
    result_text_key config (config.s3_prefix_log ++ name ++ ".json".toList) =
      config.s3_prefix_output ++ name ++ ".txt".toList := by
  have hlength : (config.s3_prefix_output ++ name ++ ".json".toList).length - 5 =
      (config.s3_prefix_output ++ name).length := by
    rw [List.length_append]
    exact Nat.add_sub_cancel _ 5
  rw [result_text_key, result_key_logKey, hlength, List.take_left]

theorem Config.LogKey.result_text_key_inj (hkey : config.LogKey key) (hother : config.LogKey other)
    (h : result_text_key config key = result_text_key config other) : key = other := by
  obtain ⟨name, rfl⟩ := hkey
  obtain ⟨name', rfl⟩ := hother
  rw [result_text_key_logKey, result_text_key_logKey, List.append_cancel_right_eq, List.append_cancel_left_eq] at h
  rw [h]

theorem Config.LogKey.result_key_ne_result_text_key (h : config.LogKey key) (other : Key) :
    result_key config key ≠ result_text_key config other := by
  obtain ⟨name, rfl⟩ := h
  rw [result_key_logKey]
  exact ne_result_text_key (List.suffix_append _ _) other

theorem Config.LogKey.output_prefix_result_text_key (h : config.LogKey key) :
    config.s3_prefix_output <+: result_text_key config key := by
  obtain ⟨name, rfl⟩ := h
  rw [result_text_key_logKey, List.append_assoc]
  exact List.prefix_append _ _

end keys

section writes

variable {config : Config} {w : World} {key other : Key}

theorem World.get_write_of_ne (w : World) (put : Put) (content : Content) (h : other ≠ key) :
    (w.write key put content).bucket.get other = w.bucket.get other := by
  rw [World.write, Put.get_store, if_neg (fun hput => h hput.2)]

theorem World.get_write_ok (w : World) (key : Key) (content : Content) :
    (w.write key .ok content).bucket.get key = some content := by
  rw [World.write, Put.get_store, if_pos ⟨rfl, rfl⟩]

/-- The log object of an input key exists. -/
def Recorded (config : Config) (bucket : Bucket) (key : Key) : Prop :=
  (bucket.get (key_process config key)).isSome

instance (config : Config) (bucket : Bucket) (key : Key) : Decidable (Recorded config bucket key) :=
  inferInstanceAs (Decidable (_ = true))

/-- The body of the first loop sends a supported object, unless HEAD has found its
log object or no URL could be made. -/
def Sends (config : Config) (calls : Key → SubmitCalls) (w : World) (key : Key) : Prop :=
  supported key ∧ ¬ (Recorded config w.bucket key ∧ (calls key).head = true) ∧ (calls key).presigned ≠ .raised

theorem process_input_object_of_sends {calls : Key → SubmitCalls} (h : Sends config calls w key) :
    process_input_object config calls w key = submit_input_object config (calls key) w key := by
  obtain ⟨hsupported, hfound, hpresigned⟩ := h
  unfold Recorded at hfound
  rw [process_input_object, if_neg (not_not_intro hsupported), if_neg hfound]
  cases hreply : (calls key).presigned with
  | raised => exact absurd hreply hpresigned
  | ok => rfl
  | clientError => rfl

theorem process_input_object_of_not_sends {calls : Key → SubmitCalls} (h : ¬ Sends config calls w key) :
    ∃ raised, process_input_object config calls w key = (w, raised) := by
  rw [process_input_object]
  split
  · exact ⟨_, rfl⟩
  · next hsupported =>
    split
    · exact ⟨_, rfl⟩
    · next hfound =>
      split
      · exact ⟨_, rfl⟩
      all_goals
        next hpresigned =>
          exact absurd ⟨not_not.mp hsupported, hfound, by simp [hpresigned]⟩ h

/-- What a request leaves: the input is sent, and the log object is the only one
that changes, to a record of the answer. -/
structure Submitted (config : Config) (calls : SubmitCalls) (w : World) (key : Key) (after : World) : Prop where
  sent : after.sent = w.sent ++ [key]
  polled : after.polled = w.polled
  frame : ∀ other, other ≠ key_process config key → after.bucket.get other = w.bucket.get other
  record : after.bucket.get (key_process config key) = w.bucket.get (key_process config key) ∨
    ∃ data, after.bucket.get (key_process config key) = some (.json data) ∧
      (data = {} ∨ calls.post = .json data)

theorem create_recognition_task_eq {post : Answer} {data : JsonData}
    (h : create_recognition_task post = some (some data)) : data = {} ∨ post = .json data := by
  unfold create_recognition_task at h
  split at h
  · cases h
  · cases h
  · split at h
    · cases h
    · split at h
      · cases h
        exact .inl rfl
      · cases h
        exact .inr rfl

theorem submitted (config : Config) (calls : SubmitCalls) (w : World) (key : Key) :
    Submitted config calls w key (submit_input_object config calls w key).1 := by
  rw [submit_input_object]
  split
  · exact ⟨rfl, rfl, fun _ _ => rfl, .inl rfl⟩
  · exact ⟨rfl, rfl, fun _ _ => rfl, .inl rfl⟩
  · next data hdata =>
    refine ⟨rfl, rfl, fun other hother => World.get_write_of_ne _ _ _ hother, ?_⟩
    simp only [write_process_status, World.write, Put.get_store]
    split
    · exact .inr ⟨data, rfl, create_recognition_task_eq hdata⟩
    · exact .inl rfl

/-- What the writes of the result, its text and the record keep, the end of a
finished operation keeps. -/
theorem write_results_keeps (property : World → Prop) (calls : CheckCalls) (key : Key) (id : String)
    (result_data : JsonData)
    (hwrite : ∀ w written put content,
      written = key ∨ written = result_key config key ∨ written = result_text_key config key →
        property w → property (w.write written put content))
    (hw : property w) : property (write_results config calls w key id result_data).1 := by
  have hresult := hwrite w _ calls.putResult (.json result_data) (.inr (.inl rfl)) hw
  have hrecord {s : World} (hs : property s) : property (write_done calls s key id).1 :=
    hwrite s _ _ _ (.inl rfl) hs
  rw [write_results]
  cases hput : calls.putResult with
  | raised | clientError =>
    rw [hput] at hresult
    exact hresult
  | ok =>
    rw [hput] at hresult
    cases hchunks : result_data.chunks with
    | none => exact hrecord hresult
    | some chunks =>
      cases htext : result_text chunks with
      | none => simpa only [htext] using hresult
      | some text =>
        have hsecond := hwrite _ _ calls.putText (.text text) (.inr (.inr rfl)) hresult
        simp only [htext]
        cases hputText : calls.putText with
        | raised | clientError =>
          rw [hputText] at hsecond
          exact hsecond
        | ok =>
          rw [hputText] at hsecond
          exact hrecord hsecond

/-- What the writes for a finished operation leave alone. -/
theorem write_results_frame (calls : CheckCalls) (w : World) (key : Key) (id : String) (result_data : JsonData)
    (hkey : other ≠ key) (hresult : other ≠ result_key config key) (htext : other ≠ result_text_key config key) :
    (write_results config calls w key id result_data).1.bucket.get other = w.bucket.get other := by
  refine write_results_keeps (fun s : World => s.bucket.get other = w.bucket.get other) calls key id result_data
    (fun s written put content hwritten hs => ?_) rfl
  have hne : other ≠ written := by
    rintro rfl
    obtain h | h | h := hwritten
    · exact hkey h
    · exact hresult h
    · exact htext h
  rw [World.get_write_of_ne _ _ _ hne, hs]

/-- The record of a log object names an operation that is not done. -/
structure Pending (bucket : Bucket) (key : Key) (id : String) : Prop where
  json : ".json".toList <:+ key
  record : ∃ data, bucket.get key = some (.json data) ∧ data.id = some id ∧ data.done = some false
  id : id ≠ ""

/-- The body of the second loop leaves the world as it is, or polls the operation
of a pending record. -/
theorem check_processing_object_cases (config : Config) (calls : Key → CheckCalls) (w : World) (key : Key) :
    (∃ raised, check_processing_object config calls w key = (w, raised)) ∨
      ∃ id, Pending w.bucket key id ∧
        check_processing_object config calls w key = check_operation config (calls key) w key id := by
  by_cases hjson : ".json".toList.isSuffixOf key = true
  · rw [check_processing_object, if_neg (not_not_intro hjson)]
    split
    · exact .inl ⟨_, rfl⟩
    · exact .inl ⟨_, rfl⟩
    · exact .inl ⟨_, rfl⟩
    · next data _ hdata =>
      split
      · exact .inl ⟨_, rfl⟩
      · next id hid =>
        split
        · exact .inl ⟨_, rfl⟩
        · next hne =>
          cases hdone : data.done with
          | none => exact .inl ⟨_, rfl⟩
          | some done =>
            cases done with
            | true => exact .inl ⟨_, rfl⟩
            | false => exact .inr ⟨id, ⟨List.isSuffixOf_iff_suffix.mp hjson, ⟨data, hdata, hid, hdone⟩, hne⟩, rfl⟩
    · exact .inl ⟨_, rfl⟩
  · rw [check_processing_object, if_pos hjson]
    exact .inl ⟨_, rfl⟩

/-- A poll is recorded and changes no object, or it finishes the operation. -/
theorem check_operation_cases (config : Config) (calls : CheckCalls) (w : World) (key : Key) (id : String) :
    (∃ raised, check_operation config calls w key id =
        ({ w with polled := w.polled ++ [(key, id, calls.poll)] }, raised)) ∨
      ∃ result_data, calls.poll = .json result_data ∧ result_data.done = some true ∧
        check_operation config calls w key id = write_results config calls
          { w with polled := w.polled ++ [(key, id, calls.poll)] } key id result_data := by
  rw [check_operation]
  split
  · exact .inl ⟨_, rfl⟩
  · exact .inl ⟨_, rfl⟩
  · next result_data hpoll =>
    split
    · exact .inl ⟨_, rfl⟩
    · exact .inl ⟨_, rfl⟩
    · next hdone => exact .inr ⟨result_data, hpoll, hdone, by rw [hpoll]⟩

end writes

section runs

variable {config : Config} {calls : RunCalls} {w : World} {key : Key}

theorem process_input_objects_keeps (property : World → Prop)
    (hprocess : ∀ s key, config.s3_prefix <+: key → property s →
      property (process_input_object config calls.submit s key).1) (h : property w) :
    property (process_input_objects config calls.inputs calls.submit w).1 := by
  unfold process_input_objects
  split
  · exact h
  · exact h
  · exact forEach_keeps property (fun s key hkey => hprocess s key (mem_list_objects_v2 hkey)) h

theorem check_processing_objects_keeps (property : World → Prop)
    (hcheck : ∀ s key, config.s3_prefix_log <+: key → property s →
      property (check_processing_object config calls.check s key).1) (h : property w) :
    property (check_processing_objects config calls.logs calls.check w).1 := by
  unfold check_processing_objects
  split
  · exact h
  · exact h
  · exact forEach_keeps property (fun s key hkey => hcheck s key (mem_list_objects_v2 hkey)) h

/-- What the second loop keeps after the first one, a run keeps. -/
theorem main_keeps_of_processed (property : World → Prop)
    (hcheck : ∀ s key, config.s3_prefix_log <+: key → property s →
      property (check_processing_object config calls.check s key).1)
    (h : property (process_input_objects config calls.inputs calls.submit w).1) : property (main config calls w) := by
  rw [main]
  split
  · next after hafter => rwa [hafter] at h
  · next after hafter =>
    rw [hafter] at h
    exact check_processing_objects_keeps property hcheck h

/-- What the bodies of both loops keep, a run keeps. -/
theorem main_keeps (property : World → Prop)
    (hprocess : ∀ s key, config.s3_prefix <+: key → property s →
      property (process_input_object config calls.submit s key).1)
    (hcheck : ∀ s key, config.s3_prefix_log <+: key → property s →
      property (check_processing_object config calls.check s key).1) (h : property w) :
    property (main config calls w) :=
  main_keeps_of_processed property hcheck (process_input_objects_keeps property hprocess h)

end runs

end solution_library.asr_batch
