import SolutionLibrary.AsrBatch.Records

open solution_library.loop
open solution_library.object_storage
open solution_library.store

namespace solution_library.asr_batch

/-- The second loop returns from the iteration of a log object and goes on with
the objects listed after it, whatever they are. -/
structure Accepted (config : Config) (calls : Key → CheckCalls) (w : World) (key : Key) : Prop where
  returns : (check_processing_object config calls w key).2 = false
  examines : ∀ start before after, forEach (check_processing_object config calls) start before = (w, false) →
    examined (check_processing_object config calls) start (before ++ key :: after) =
      before ++ key ::
        examined (check_processing_object config calls) (check_processing_object config calls w key).1 after

/-- The first loop stores a record for an input. -/
structure SubmitCalls.StoresRecord (calls : SubmitCalls) : Prop where
  data : ∃ data, create_recognition_task calls.post = some (some data)
  put : calls.put.stores = true

/-- A response names an operation, and says whether it is done. -/
structure JsonData.Readable (response : JsonData) : Prop where
  id : ∃ id, response.id = some id ∧ id ≠ ""
  done : response.done ≠ none

/-- Storing the result of a finished operation raises: an upload does, or a field
of a chunk is missing. -/
def CheckCalls.StoreRaises (calls : CheckCalls) (result_data : JsonData) : Prop :=
  (∃ stored, calls.putResult = .raised stored) ∨ calls.putResult = .ok ∧
    ((∃ chunks, result_data.chunks = some chunks ∧
        (result_text chunks = none ∨ ∃ stored, calls.putText = .raised stored)) ∨
      (result_data.chunks ≠ none → calls.putText = .ok) ∧ ∃ stored, calls.putRecord = .raised stored)

/-- Asking for an operation raises: the call does, a field of its answer is
missing, or storing its result raises. -/
def CheckCalls.PollRaises (calls : CheckCalls) : Prop :=
  calls.poll = .raised ∨ ∃ result_data, calls.poll = .json result_data ∧
    (result_data.done = none ∨ result_data.done = some false ∧ result_data.id = none ∨
      result_data.done = some true ∧ calls.StoreRaises result_data)

section raised

variable {config : Config} {calls : CheckCalls} {w : World} {key : Key} {id : String}

theorem write_done_raised :
    (write_done calls w key id).2 = true ↔ ∃ stored, calls.putRecord = .raised stored := by
  rw [write_done]
  cases calls.putRecord <;> simp

theorem write_results_raised {result_data : JsonData} :
    (write_results config calls w key id result_data).2 = true ↔ calls.StoreRaises result_data := by
  rw [write_results, CheckCalls.StoreRaises]
  cases hresult : calls.putResult with
  | raised stored => simp
  | clientError => simp
  | ok =>
    cases hchunks : result_data.chunks with
    | none => simp [write_done_raised]
    | some chunks =>
      cases htext : result_text chunks with
      | none => simp [htext]
      | some text =>
        cases hput : calls.putText with
        | raised stored => simp [htext]
        | clientError => simp [htext]
        | ok => simp [htext, write_done_raised]

theorem check_operation_raised : (check_operation config calls w key id).2 = true ↔ calls.PollRaises := by
  rw [check_operation, CheckCalls.PollRaises]
  cases hpoll : calls.poll with
  | raised => simp
  | failed => simp
  | json result_data =>
    cases hdone : result_data.done with
    | none => simp [hdone]
    | some done =>
      cases done with
      | false => simp [hdone]
      | true => simp [hdone, write_results_raised]

/-- The iteration of a record raises when reading it does, or when a field of it
is missing that the iteration comes to. -/
theorem check_record_raised {calls : Key → CheckCalls} {data : JsonData} (hjson : ".json".toList <:+ key)
    (hrecord : w.bucket.get key = some (.json data)) :
    (check_processing_object config calls w key).2 = true ↔ (calls key).read = .raised ∨
      (calls key).read = .ok ∧ (data.id = none ∨ data.id ≠ some "" ∧
        (data.done = none ∨ data.done = some false ∧ (calls key).PollRaises)) := by
  rw [check_processing_object, if_neg (not_not_intro (List.isSuffixOf_iff_suffix.mpr hjson)), hrecord]
  cases hread : (calls key).read with
  | raised => simp
  | clientError => simp
  | ok =>
    cases hid : data.id with
    | none => simp [hid]
    | some id =>
      by_cases hempty : id = ""
      · simp [hid, hempty]
      · cases hdone : data.done with
        | none => simp [hid, hempty, hdone]
        | some done => cases done <;> simp [hid, hempty, hdone, check_operation_raised]

end raised

section accepted

variable {config : Config} {calls : Key → CheckCalls} {w : World} {key : Key}

/-- An iteration that returns does not stop the loop. -/
theorem accepted_iff_returns :
    Accepted config calls w key ↔ (check_processing_object config calls w key).2 = false := by
  refine ⟨Accepted.returns, fun hreturns => ⟨hreturns, fun start before after hbefore => ?_⟩⟩
  rw [examined_append (by rw [hbefore]), hbefore, examined_cons hreturns]

/-- The marker of a finished operation is accepted whenever it is read. -/
theorem marker_accepted_iff {id : String} (hjson : ".json".toList <:+ key)
    (hrecord : w.bucket.get key = some (.json { id := some id, done := some true })) :
    Accepted config calls w key ↔ (calls key).read ≠ .raised := by
  rw [accepted_iff_returns, ← Bool.not_eq_true, check_record_raised hjson hrecord]
  simp

theorem get_submit_input_object {submit : SubmitCalls} {data : JsonData} (before : World)
    (hdata : create_recognition_task submit.post = some (some data)) (hput : submit.put.stores = true) :
    (submit_input_object config submit before key).1.bucket.get (key_process config key) = some (.json data) := by
  rw [submit_input_object, hdata]
  change (World.write _ _ _ _).bucket.get _ = _
  rw [World.write, Put.get_store, if_pos ⟨hput, rfl⟩]

/-- A stored record is the response, or the placeholder of a response without an
operation. -/
theorem create_recognition_task_cases {post : Answer} {data : JsonData}
    (h : create_recognition_task post = some (some data)) :
    ∃ response id, post = .json response ∧ response.id = some id ∧ data = if id = "" then {} else response := by
  unfold create_recognition_task at h
  split at h
  · cases h
  · cases h
  · next response =>
    split at h
    · cases h
    · next id hid =>
      refine ⟨response, id, rfl, hid, ?_⟩
      split at h
      · next hempty =>
        cases h
        rw [if_pos hempty]
      · next hne =>
        cases h
        rw [if_neg hne]

/-- A record that the first loop has stored, still as it was, is accepted exactly if
the read does not raise and, when it succeeds, the response for the input names an
operation and says whether it is done, and asking for the operation does not
raise. -/
theorem record_accepted_iff {submit : SubmitCalls} (hstores : submit.StoresRecord) (before : World)
    (hkept : w.bucket.get (key_process config key) =
      (submit_input_object config submit before key).1.bucket.get (key_process config key)) :
    Accepted config calls w (key_process config key) ↔ ∃ response, submit.post = .json response ∧
      (calls (key_process config key)).read ≠ .raised ∧
        ((calls (key_process config key)).read = .ok → response.Readable ∧
          (response.done = some false → ¬ (calls (key_process config key)).PollRaises)) := by
  obtain ⟨data, hdata⟩ := hstores.data
  obtain ⟨response, id, hpost, hid, rfl⟩ := create_recognition_task_cases hdata
  have hrecord := hkept.trans (get_submit_input_object before hdata hstores.put)
  have hjson := (logKey_key_process config key).json_suffix
  rw [accepted_iff_returns, ← Bool.not_eq_true, check_record_raised hjson hrecord, hpost]
  simp only [Answer.json.injEq, exists_eq_left', not_or, not_and]
  apply and_congr_right
  intro _
  apply imp_congr_right
  intro _
  by_cases hempty : id = ""
  · have hunreadable : ¬ response.Readable := by
      rintro ⟨⟨other, hother, hne⟩, _⟩
      cases hid.symm.trans hother
      exact hne hempty
    simp [hempty, hunreadable]
  · have hreadable : response.Readable ↔ response.done ≠ none :=
      ⟨JsonData.Readable.done, fun hdone => ⟨⟨id, hid, hempty⟩, hdone⟩⟩
    simp [hempty, hid, hreadable]

end accepted

section placeholder

def example_config : Config :=
  ⟨"in/".toList, "log/".toList, "out/".toList⟩

/-- A run that gets these responses for its inputs, and finds every operation under
way. -/
def example_calls (response : Key → JsonData) : RunCalls where
  submit := fun key => { post := .json (response key) }
  check := fun _ => { poll := .json { id := some "op", done := some false } }

/-- Two inputs, before any run. -/
def two_inputs : World where
  bucket := (Store.empty.put "in/a.ogg".toList .other).put "in/b.ogg".toList .other

/-- The record of an operation under way is accepted in the next run. -/
theorem record_accepted_example :
    let calls := example_calls fun _ => { id := some "op", done := some false }
    Accepted example_config calls.check (main example_config calls two_inputs) "log/a.ogg.json".toList := by
  intro calls
  have hstores : (calls.submit "in/a.ogg".toList).StoresRecord := ⟨⟨_, rfl⟩, rfl⟩
  change Accepted example_config calls.check _ (key_process example_config "in/a.ogg".toList)
  refine (record_accepted_iff hstores two_inputs (by decide)).mpr ⟨_, rfl, by decide, fun _ => ⟨?_, fun _ => ?_⟩⟩
  · exact ⟨⟨"op", rfl, by decide⟩, by decide⟩
  · rintro (hpoll | ⟨result_data, hpoll, hraises⟩)
    · cases hpoll
    · cases hpoll
      simp at hraises

/-- A response with an empty id leaves a placeholder without an id. The next run
raises on it and never comes to the record of the other input. -/
theorem placeholder_stops_loop :
    let calls := example_calls fun key =>
      if key = "in/a.ogg".toList then { id := some "" } else { id := some "op", done := some false }
    let w := main example_config calls two_inputs
    list_objects_v2 w.bucket "log/".toList = ["log/a.ogg.json".toList, "log/b.ogg.json".toList] ∧
      ¬ Accepted example_config calls.check w "log/a.ogg.json".toList ∧
        examined (check_processing_object example_config calls.check) w
          ["log/a.ogg.json".toList, "log/b.ogg.json".toList] = ["log/a.ogg.json".toList] := by
  intro calls w
  refine ⟨by decide, fun haccepted => ?_, by decide⟩
  have hreturns := haccepted.returns
  revert hreturns
  decide

end placeholder

end solution_library.asr_batch
