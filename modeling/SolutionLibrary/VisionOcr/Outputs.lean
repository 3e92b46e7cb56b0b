import SolutionLibrary.Library.Invariant
import SolutionLibrary.VisionOcr.Script

open solution_library.invariant
open solution_library.loop
open solution_library.object_storage
open solution_library.store

namespace solution_library.vision_ocr

/-- The result of an input object is stored, together with its text. -/
def Completed (config : Config) (bucket : Bucket) (key : Key) : Prop :=
  ∃ result text, bucket.get (key_process config key) = some (.json result) ∧ words_concat result = some text ∧
    bucket.get (result_text_key config key) = some (.text text)

/-- Every call for an input object succeeds. -/
structure Calls.Succeed (calls : Calls) : Prop where
  head : calls.head = true
  presigned : calls.presigned = .ok
  get : calls.get = true
  post : ∀ mime_type, ∃ result, calls.post mime_type = .json result
  putResult : calls.putResult = .ok
  putText : calls.putText = .ok

/-- What happens to the bucket: a run of the script, or a change that somebody
else makes. -/
inductive Act where
  | run (calls : RunCalls)
  | change (key : Key) (content : Option Content)

def step (config : Config) (bucket : Bucket) : Act → Bucket
  | .run calls => process_input_objects config calls bucket
  | .change key (some content) => bucket.put key content
  | .change key none => bucket.erase key

/-- A run completes every supported object that it lists and whose calls succeed. -/
def CompletesListed (config : Config) (bucket : Bucket) : Act → Prop
  | .run calls => calls.listing = .ok → ∀ key ∈ list_objects_v2 bucket config.s3_prefix, supported key →
      (calls.calls key).Succeed → Completed config (process_input_objects config calls bucket) key
  | .change _ _ => True

/-- Every run completes what it lists. -/
def OutputsComplete (config : Config) (start : Bucket) (acts : List Act) : Prop :=
  ∀ earlier act later, acts = earlier ++ act :: later → CompletesListed config (earlier.foldl (step config) start) act

/-- An exception while the result of an input object is written. -/
def Calls.WriteRaises (calls : Calls) (result : Json) : Prop :=
  (∃ stored, calls.putResult = .raised stored) ∨
    calls.putResult = .ok ∧ (words_concat result = none ∨ ∃ stored, calls.putText = .raised stored)

/-- An exception for an input object, in its recognition or in what follows, ends
the loop. -/
def Raises (config : Config) (calls : Key → Calls) (bucket : Bucket) (key : Key) : Prop :=
  supported key ∧ ¬ ((bucket.get (key_process config key)).isSome ∧ (calls key).head = true) ∧
    ∀ result, recognize (calls key) key = some result → (calls key).WriteRaises result

/-- Every supported object that a run lists and whose calls succeed is completed
already, or it has no result, its texts are strings, and no object before it
raises. -/
def Act.Undisturbed (config : Config) (bucket : Bucket) : Act → Prop
  | .run calls => calls.listing = .ok → ∀ before key after,
      list_objects_v2 bucket config.s3_prefix = before ++ key :: after → supported key → (calls.calls key).Succeed →
        Completed config bucket key ∨
          bucket.get (key_process config key) = none ∧
            (∀ result, recognize (calls.calls key) key = some result → words_concat result ≠ none) ∧
            ∀ other ∈ before, ¬ Raises config calls.calls bucket other
  | .change _ _ => True

section keys

variable {config : Config} {key other : Key}

theorem key_process_inj (hkey : config.s3_prefix <+: key) (hother : config.s3_prefix <+: other)
    (h : key_process config key = key_process config other) : key = other := by
  apply eq_of_drop_eq hkey hother
  simpa [key_process] using h

theorem result_text_key_inj (hkey : config.s3_prefix <+: key) (hother : config.s3_prefix <+: other)
    (h : result_text_key config key = result_text_key config other) : key = other := by
  apply eq_of_drop_eq hkey hother
  simpa [result_text_key] using h

theorem key_process_ne_result_text_key (config : Config) (key other : Key) :
    key_process config key ≠ result_text_key config other := by
  intro h
  have hlast := congrArg List.getLast? h
  simp [key_process, result_text_key] at hlast

end keys

section body

variable {config : Config} {calls : Key → Calls} {bucket : Bucket} {key other : Key}

theorem write_result_frame (calls : Calls) (bucket : Bucket) (key : Key) (result : Json)
    (hjson : other ≠ key_process config key) (htext : other ≠ result_text_key config key) :
    (write_result config calls bucket key result).1.get other = bucket.get other := by
  have hput (put : Put) (content : Content) (bucket : Bucket) :
      (put.store bucket (key_process config key) content).get other = bucket.get other := by
    rw [Put.get_store, if_neg (fun h => hjson h.2)]
  rw [write_result]
  cases hresult : calls.putResult with
  | raised | clientError => exact hput _ _ _
  | ok =>
    simp only [write_text]
    cases words_concat result with
    | none => exact hput _ _ _
    | some text =>
      rw [Put.get_store, if_neg (fun h => htext h.2)]
      exact hput _ _ _

theorem write_result_raised (calls : Calls) (bucket : Bucket) (key : Key) (result : Json) :
    (write_result config calls bucket key result).2 = true ↔ calls.WriteRaises result := by
  rw [write_result, Calls.WriteRaises]
  cases calls.putResult with
  | raised | clientError => simp
  | ok =>
    simp only [write_text]
    cases words_concat result with
    | none => simp
    | some text => cases calls.putText <;> simp

theorem process_input_object_raised :
    (process_input_object config calls bucket key).2 = true ↔ Raises config calls bucket key := by
  rw [process_input_object, Raises]
  by_cases hsupported : supported key
  · by_cases hfound : (bucket.get (key_process config key)).isSome ∧ (calls key).head = true
    · rw [if_neg (not_not_intro hsupported), if_pos hfound]
      simp [hfound]
    · rw [if_neg (not_not_intro hsupported), if_neg hfound, and_iff_right hsupported, and_iff_right hfound]
      cases recognize (calls key) key with
      | none => simp
      | some result => simpa using write_result_raised (calls key) bucket key result
  · rw [if_pos hsupported]
    simp [hsupported]

/-- The outputs of an input object. -/
def outputs (config : Config) (key : Key) (bucket : Bucket) : Option Content × Option Content :=
  (bucket.get (key_process config key), bucket.get (result_text_key config key))

/-- The iterations of the loop touch different outputs. -/
theorem separate_process (config : Config) (calls : Key → Calls) (bucket : Bucket) :
    Separate (process_input_object config calls) (outputs config) (list_objects_v2 bucket config.s3_prefix) where
  frame s key hkey other hother hne := by
    have hkey := mem_list_objects_v2 hkey
    have hother := mem_list_objects_v2 hother
    rw [process_input_object]
    split
    · rfl
    · split
      · rfl
      · split
        · rfl
        · next result _ =>
          rw [outputs, outputs, write_result_frame, write_result_frame]
          · exact (key_process_ne_result_text_key config key other).symm
          · exact fun h => hne (result_text_key_inj hother hkey h)
          · exact fun h => hne (key_process_inj hother hkey h)
          · exact key_process_ne_result_text_key config other key
  raised s s' key _ hview := by
    rw [Bool.eq_iff_iff, process_input_object_raised, process_input_object_raised]
    simp only [outputs, Prod.mk.injEq] at hview
    simp only [Raises, hview]

theorem Completed.congr {bucket after : Bucket} (h : outputs config key after = outputs config key bucket) :
    Completed config after key ↔ Completed config bucket key := by
  simp only [outputs, Prod.mk.injEq] at h
  rw [Completed, Completed, h.1, h.2]

theorem Completed.isSome (h : Completed config bucket key) : (bucket.get (key_process config key)).isSome := by
  obtain ⟨result, text, hresult, _⟩ := h
  rw [hresult]
  rfl

/-- An object with a result is skipped. -/
theorem process_of_isSome (hhead : (calls key).head = true) (h : (bucket.get (key_process config key)).isSome) :
    process_input_object config calls bucket key = (bucket, false) := by
  rw [process_input_object]
  split
  · rfl
  · rw [if_pos ⟨h, hhead⟩]

theorem Calls.Succeed.recognize {calls : Calls} (h : calls.Succeed) (key : Key) :
    ∃ result, vision_ocr.recognize calls key = some result := by
  have hanalyze (mime_type : Option String) : ∃ result, analyze mime_type calls = some result := by
    obtain ⟨result, hpost⟩ := h.post mime_type
    exact ⟨result, by rw [analyze, h.presigned, h.get, hpost]⟩
  rw [vision_ocr.recognize]
  split
  · exact hanalyze _
  · exact hanalyze _

/-- An object without a result is completed when its texts are strings. -/
theorem Calls.Succeed.completed_iff (h : (calls key).Succeed) (hsupported : supported key)
    (hnone : bucket.get (key_process config key) = none) :
    Completed config (process_input_object config calls bucket key).1 key ↔
      ∀ result, vision_ocr.recognize (calls key) key = some result → words_concat result ≠ none := by
  obtain ⟨result, hresult⟩ := h.recognize key
  rw [process_input_object, if_neg (not_not_intro hsupported), if_neg (by simp [hnone])]
  simp only [hresult, Option.some.injEq, forall_eq', write_result, h.putResult, write_text, h.putText]
  have hstored : (Put.ok.store bucket (key_process config key) (.json result)).get (key_process config key) =
      some (.json result) := by simp [Put.get_store, Put.stores]
  cases htext : words_concat result with
  | none =>
    refine iff_of_false ?_ (by simp)
    rintro ⟨other, text, hother, hwords, _⟩
    cases hstored.symm.trans hother
    simp [htext] at hwords
  | some text =>
    refine iff_of_true ⟨result, text, ?_, htext, ?_⟩ (by simp)
    · rw [Put.get_store, if_neg (fun h => key_process_ne_result_text_key config key key h.2), hstored]
    · simp [Put.get_store, Put.stores]

end body

/-- Whether a run completes an object is decided by the outputs that the object has
before it, and by what raises before it. -/
theorem Calls.Succeed.completed_run_iff {config : Config} {run : RunCalls} {bucket : Bucket} {key : Key}
    {before after : List Key} (h : (run.calls key).Succeed) (hsupported : supported key) (hlisting : run.listing = .ok)
    (hlist : list_objects_v2 bucket config.s3_prefix = before ++ key :: after) :
    Completed config (process_input_objects config run bucket) key ↔
      Completed config bucket key ∨ bucket.get (key_process config key) = none ∧
        (∀ result, vision_ocr.recognize (run.calls key) key = some result → words_concat result ≠ none) ∧
        ∀ other ∈ before, ¬ Raises config run.calls bucket other := by
  have hseparate := separate_process config run.calls bucket
  have hnodup := nodup_list_objects_v2 bucket config.s3_prefix
  simp only [process_input_objects, hlisting]
  rw [hlist] at hseparate hnodup ⊢
  by_cases hraises : ∃ other ∈ before, Raises config run.calls bucket other
  · simp only [← process_input_object_raised] at hraises
    rw [Completed.congr (hseparate.view_of_raised hnodup hraises)]
    refine (or_iff_left ?_).symm
    rintro ⟨_, _, hbefore⟩
    obtain ⟨other, hother, hraised⟩ := hraises
    exact hbefore other hother (process_input_object_raised.mp hraised)
  · simp only [not_exists, not_and] at hraises
    obtain ⟨s, hview, hfinal⟩ := hseparate.view_forEach hnodup fun other hother =>
      Bool.eq_false_iff.mpr fun hraised => hraises other hother (process_input_object_raised.mp hraised)
    have hget : s.get (key_process config key) = bucket.get (key_process config key) := congrArg Prod.fst hview
    rw [Completed.congr hfinal]
    cases hstored : bucket.get (key_process config key) with
    | none =>
      rw [h.completed_iff hsupported (hget.trans hstored)]
      have hnot : ¬ Completed config bucket key := fun hcompleted => by simpa [hstored] using hcompleted.isSome
      rw [or_iff_right hnot, and_iff_right rfl]
      exact (and_iff_left hraises).symm
    | some content =>
      rw [process_of_isSome h.head (by rw [hget, hstored]; rfl), Completed.congr hview]
      simp

theorem completesListed_iff (config : Config) (bucket : Bucket) (act : Act) :
    CompletesListed config bucket act ↔ act.Undisturbed config bucket := by
  cases act with
  | change key content => rfl
  | run run =>
    refine forall_congr' fun hlisting => ?_
    constructor
    · intro hcompletes before key after hlist hsupported hsucceed
      refine (hsucceed.completed_run_iff hsupported hlisting hlist).mp (hcompletes key ?_ hsupported hsucceed)
      rw [hlist]
      exact List.mem_append_right _ List.mem_cons_self
    · intro hundisturbed key hkey hsupported hsucceed
      obtain ⟨before, after, hlist⟩ := List.append_of_mem hkey
      exact (hsucceed.completed_run_iff hsupported hlisting hlist).mpr
        (hundisturbed before key after hlist hsupported hsucceed)

/-- In every sequence of runs, with changes of others between them, every run
completes what it lists exactly when it comes undisturbed to all of it. -/
theorem outputs_complete_iff (config : Config) (start : Bucket) (acts : List Act) :
    OutputsComplete config start acts ↔
      Along (step config) (fun bucket act => act.Undisturbed config bucket) start acts := by
  rw [along_iff_forall]
  simp only [OutputsComplete, completesListed_iff]

/-- In the first run the text of the first object cannot be stored, and in the
second one the recognition of the second object fails: neither the first nor the
third object is completed in the second run, although its calls succeed. -/
theorem outputs_not_complete :
    let config : Config := ⟨"in/".toList, "out/".toList⟩
    let start : Bucket :=
      ((Store.empty.put "in/a.png".toList .other).put "in/b.png".toList .other).put "in/c.png".toList .other
    let result : Json := .object [("text", .string "word")]
    let first : RunCalls :=
      { calls := fun key =>
          if key = "in/a.png".toList then { post := fun _ => .json result, putText := .clientError }
          else { post := fun _ => .failed } }
    let second : RunCalls :=
      { calls := fun key => if key = "in/b.png".toList then { post := fun _ => .failed }
          else { post := fun _ => .json result } }
    ¬ OutputsComplete config start [.run first, .run second] ∧
      ∀ key ∈ ["in/a.png".toList, "in/c.png".toList], (second.calls key).Succeed ∧
        ¬ Completed config ([Act.run first, .run second].foldl (step config) start) key := by
  intro config start result first second
  have hsucceed (key : Key) (hkey : key ≠ "in/b.png".toList) : (second.calls key).Succeed := by
    have hcalls : second.calls key = { post := fun _ => .json result } := if_neg hkey
    rw [hcalls]
    exact ⟨rfl, rfl, rfl, fun _ => ⟨result, rfl⟩, rfl, rfl⟩
  have hnot (key : Key) (hkey : key ∈ ["in/a.png".toList, "in/c.png".toList]) :
      ¬ Completed config ([Act.run first, .run second].foldl (step config) start) key := by
    have hnone :
        (([Act.run first, .run second].foldl (step config) start).get (result_text_key config key)).isNone := by
      revert key
      decide
    rintro ⟨_, text, _, _, htext⟩
    rw [htext] at hnone
    cases hnone
  refine ⟨fun hcomplete => ?_, fun key hkey => ⟨hsucceed key ?_, hnot key hkey⟩⟩
  · apply hnot "in/a.png".toList (by decide)
    exact hcomplete [.run first] (.run second) [] rfl rfl _ (by decide) (by decide) (hsucceed _ (by decide))
  · revert key
    decide

end solution_library.vision_ocr
