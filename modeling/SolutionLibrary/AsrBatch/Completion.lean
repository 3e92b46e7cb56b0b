import SolutionLibrary.Library.Invariant
import SolutionLibrary.AsrBatch.Records

open solution_library.invariant
open solution_library.loop
open solution_library.object_storage
open solution_library.store

namespace solution_library.asr_batch

/-- The result of an operation is stored, with its text when it has chunks. -/
structure ResultStored (config : Config) (bucket : Bucket) (key : Key) (result_data : JsonData) : Prop where
  result : bucket.get (result_key config key) = some (.json result_data)
  text : ∀ chunks, result_data.chunks = some chunks → ∃ text, result_text chunks = some text ∧
    bucket.get (result_text_key config key) = some (.text text)

/-- No write for a finished operation fails. -/
structure CheckCalls.Stores (calls : CheckCalls) (result_data : JsonData) : Prop where
  result : calls.putResult = .ok
  text : result_data.chunks ≠ none → calls.putText = .ok
  record : calls.putRecord.stores = true

/-- The record of a log object says that its operation is done. -/
def Done (bucket : Bucket) (key : Key) : Prop :=
  ∃ data, bucket.get key = some (.json data) ∧ data.done = some true

/-- The answer that finished the operation of a record is stored. -/
def Completed (config : Config) (w : World) (key : Key) : Prop :=
  ∃ id data result_data, w.bucket.get key = some (.json data) ∧ data.id = some id ∧
    (key, id, .json result_data) ∈ w.polled ∧ result_data.done = some true ∧
      ResultStored config w.bucket key result_data

/-- The log objects are those of the script, and what is done is completed. -/
structure World.Sound (config : Config) (w : World) : Prop where
  logKey : ∀ key, config.s3_prefix_log <+: key → ∀ content, w.bucket.get key = some content → config.LogKey key
  completed : ∀ key, config.s3_prefix_log <+: key → Done w.bucket key → Completed config w key

section writes

variable {config : Config} {calls : CheckCalls} {w : World} {key other : Key} {id : String} {result_data : JsonData}

theorem polled_write_results : (write_results config calls w key id result_data).1.polled = w.polled :=
  write_results_keeps (fun s : World => s.polled = w.polled) calls key id result_data (fun _ _ _ _ _ hs => hs) rfl

theorem ResultStored.of_get_eq {bucket after : Bucket} (h : ResultStored config bucket key result_data)
    (hresult : after.get (result_key config key) = bucket.get (result_key config key))
    (htext : after.get (result_text_key config key) = bucket.get (result_text_key config key)) :
    ResultStored config after key result_data := by
  refine ⟨hresult.trans h.result, fun chunks hchunks => ?_⟩
  rw [htext]
  exact h.text chunks hchunks

/-- Once the result is stored, the record is left as it is or becomes done. -/
theorem write_done_cases (hsep : config.Separate) (hkey : config.LogKey key) {s : World}
    (hsame : s.bucket.get key = w.bucket.get key) (hputResult : calls.putResult = .ok)
    (hputText : result_data.chunks ≠ none → calls.putText = .ok)
    (hstored : ResultStored config s.bucket key result_data) :
    (write_done calls s key id).1.bucket.get key = w.bucket.get key ∨
      (calls.Stores result_data ∧
        (write_done calls s key id).1.bucket.get key = some (.json { id := some id, done := some true }) ∧
        ResultStored config (write_done calls s key id).1.bucket key result_data) := by
  cases hstores : calls.putRecord.stores with
  | false =>
    left
    rw [write_done, World.write, Put.get_store, hstores, if_neg (by simp), hsame]
  | true =>
    refine .inr ⟨⟨hputResult, hputText, hstores⟩, ?_, hstored.of_get_eq ?_ ?_⟩
    · rw [write_done, World.write, Put.get_store, if_pos ⟨hstores, rfl⟩]
    · exact s.get_write_of_ne _ _ (hsep.ne_result_key hkey.under_log key).symm
    · exact s.get_write_of_ne _ _ (ne_result_text_key hkey.json_suffix key).symm

/-- The writes for a finished operation leave its record, or complete it. -/
theorem write_results_cases (hsep : config.Separate) (hkey : config.LogKey key) :
    (write_results config calls w key id result_data).1.bucket.get key = w.bucket.get key ∨
      (calls.Stores result_data ∧
        (write_results config calls w key id result_data).1.bucket.get key =
          some (.json { id := some id, done := some true }) ∧
        ResultStored config (write_results config calls w key id result_data).1.bucket key result_data) := by
  have hresult : key ≠ result_key config key := hsep.ne_result_key hkey.under_log key
  have htext : key ≠ result_text_key config key := ne_result_text_key hkey.json_suffix key
  have hput (put : Put) (content : Content) := w.get_write_of_ne put content hresult
  rw [write_results]
  cases hputResult : calls.putResult with
  | raised => exact .inl (hput _ _)
  | clientError => exact .inl (hput _ _)
  | ok =>
    have hfirst := w.get_write_ok (result_key config key) (.json result_data)
    cases hchunks : result_data.chunks with
    | none =>
      have hstored : ResultStored config (w.write (result_key config key) .ok (.json result_data)).bucket key
          result_data := ⟨hfirst, by simp [hchunks]⟩
      exact write_done_cases hsep hkey (hput _ _) hputResult (fun hne => absurd hchunks hne) hstored
    | some chunks =>
      cases hresult_text : result_text chunks with
      | none => exact .inl (by simpa [hresult_text] using hput .ok (.json result_data))
      | some text =>
        simp only [hresult_text]
        have hsecond (put : Put) : ((w.write (result_key config key) .ok (.json result_data)).write
            (result_text_key config key) put (.text text)).bucket.get key = w.bucket.get key := by
          rw [World.get_write_of_ne _ _ _ htext, hput]
        cases hputText : calls.putText with
        | raised => exact .inl (hsecond _)
        | clientError => exact .inl (hsecond _)
        | ok =>
          have hstored : ResultStored config ((w.write (result_key config key) .ok (.json result_data)).write
              (result_text_key config key) .ok (.text text)).bucket key result_data := by
            refine ⟨?_, fun other hother => ?_⟩
            · rw [World.get_write_of_ne _ _ _ (hkey.result_key_ne_result_text_key key), hfirst]
            · cases hchunks.symm.trans hother
              exact ⟨text, hresult_text, World.get_write_ok _ _ _⟩
          exact write_done_cases hsep hkey (hsecond _) hputResult (fun _ => hputText) hstored

/-- The body of the second loop leaves the record of a log object as it is, or a
poll has finished its operation and everything is stored. -/
theorem check_completes {calls : Key → CheckCalls} (hsep : config.Separate) (hkey : config.LogKey key) :
    (check_processing_object config calls w key).1.bucket.get key = w.bucket.get key ∨
      ∃ result_data, (calls key).poll = .json result_data ∧ (calls key).Stores result_data ∧
        Completed config (check_processing_object config calls w key).1 key := by
  obtain ⟨raised, hsame⟩ | ⟨id, _, hpolled⟩ := check_processing_object_cases config calls w key
  · exact .inl (by rw [hsame])
  rw [hpolled]
  obtain ⟨raised, hsame⟩ | ⟨result_data, hpoll, hdone, hfinished⟩ := check_operation_cases config (calls key) w key id
  · exact .inl (by rw [hsame])
  rw [hfinished]
  obtain hsame | ⟨hstores, hrecord, hstored⟩ := write_results_cases hsep hkey
  · exact .inl hsame
  · refine .inr ⟨result_data, hpoll, hstores, id, _, result_data, hrecord, rfl, ?_, hdone, hstored⟩
    rw [polled_write_results, hpoll]
    exact List.mem_append_right _ (List.mem_singleton.mpr rfl)

/-- What the body of the second loop leaves alone. -/
theorem check_frame {calls : Key → CheckCalls} (hkey : other ≠ key) (hresult : other ≠ result_key config key)
    (htext : other ≠ result_text_key config key) :
    (check_processing_object config calls w key).1.bucket.get other = w.bucket.get other := by
  obtain ⟨raised, hsame⟩ | ⟨id, _, hpolled⟩ := check_processing_object_cases config calls w key
  · rw [hsame]
  rw [hpolled]
  obtain ⟨raised, hsame⟩ | ⟨result_data, _, _, hfinished⟩ := check_operation_cases config (calls key) w key id
  · rw [hsame]
  · rw [hfinished]
    exact write_results_frame (calls key) _ key id result_data hkey hresult htext

theorem polled_check {calls : Key → CheckCalls} :
    w.polled <+: (check_processing_object config calls w key).1.polled := by
  obtain ⟨raised, hsame⟩ | ⟨id, _, hpolled⟩ := check_processing_object_cases config calls w key
  · rw [hsame]
  rw [hpolled]
  obtain ⟨raised, hsame⟩ | ⟨result_data, _, _, hfinished⟩ := check_operation_cases config (calls key) w key id
  · rw [hsame]
    exact List.prefix_append _ _
  · rw [hfinished, polled_write_results]
    exact List.prefix_append _ _

end writes

section sound

variable {config : Config} {w after : World} {key : Key}

theorem Completed.of_get_eq (h : Completed config w key) (hpolled : w.polled <+: after.polled)
    (hrecord : after.bucket.get key = w.bucket.get key)
    (hresult : after.bucket.get (result_key config key) = w.bucket.get (result_key config key))
    (htext : after.bucket.get (result_text_key config key) = w.bucket.get (result_text_key config key)) :
    Completed config after key := by
  obtain ⟨id, data, result_data, hdata, hid, hmem, hdone, hstored⟩ := h
  exact ⟨id, data, result_data, hrecord.trans hdata, hid, hpolled.subset hmem, hdone,
    hstored.of_get_eq hresult htext⟩

theorem Done.logKey (h : w.Sound config) (hlog : config.s3_prefix_log <+: key) (hdone : Done w.bucket key) :
    config.LogKey key := by
  obtain ⟨data, hdata, _⟩ := hdone
  exact h.logKey key hlog _ hdata

theorem Done.of_get_eq {bucket other : Bucket} (h : Done bucket key) (hget : other.get key = bucket.get key) :
    Done other key := by
  obtain ⟨data, hdata, hdone⟩ := h
  exact ⟨data, hget.trans hdata, hdone⟩

/-- Only one log object changes, to a record that is not done. -/
theorem World.Sound.write (h : w.Sound config) (hsep : config.Separate) {written : Key}
    (hwritten : config.LogKey written)
    (hpolled : after.polled = w.polled) (hother : ∀ key, key ≠ written → after.bucket.get key = w.bucket.get key)
    (hrecord : after.bucket.get written = w.bucket.get written ∨ ¬ Done after.bucket written) : after.Sound config := by
  refine ⟨fun key hlog content hcontent => ?_, fun key hlog hdone => ?_⟩
  · by_cases hkey : key = written
    · exact hkey ▸ hwritten
    · exact h.logKey key hlog content ((hother key hkey).symm.trans hcontent)
  · have hsame : after.bucket.get key = w.bucket.get key := by
      by_cases hkey : key = written
      · subst hkey
        exact hrecord.resolve_right fun hnot => hnot hdone
      · exact hother key hkey
    refine (h.completed key hlog (hdone.of_get_eq hsame.symm)).of_get_eq (hpolled ▸ List.prefix_rfl) hsame ?_ ?_
    · exact hother _ (hsep.ne_result_key hwritten.under_log key).symm
    · exact hother _ (ne_result_text_key hwritten.json_suffix key).symm

/-- The body of the second loop leaves all log objects but its own alone. -/
theorem World.Sound.check_other (h : w.Sound config) (hsep : config.Separate) (calls : Key → CheckCalls)
    (hkey : config.s3_prefix_log <+: key) {other : Key} (hlog : config.s3_prefix_log <+: other) (hne : other ≠ key) :
    (check_processing_object config calls w key).1.bucket.get other = w.bucket.get other := by
  obtain ⟨raised, hsame⟩ | ⟨id, hpending, _⟩ := check_processing_object_cases config calls w key
  · rw [hsame]
  obtain ⟨data, hdata, _⟩ := hpending.record
  have hlogKey := h.logKey key hkey _ hdata
  apply check_frame hne (hsep.ne_result_key hlog key)
  rintro rfl
  exact hsep _ hlog hlogKey.output_prefix_result_text_key

/-- The body of the second loop completes what it makes done. -/
theorem World.Sound.check_self (h : w.Sound config) (hsep : config.Separate) (calls : Key → CheckCalls)
    (hkey : config.s3_prefix_log <+: key) :
    check_processing_object config calls w key = (w, (check_processing_object config calls w key).2) ∨
      (config.LogKey key ∧ ¬ Done w.bucket key ∧
        ((check_processing_object config calls w key).1.bucket.get key = w.bucket.get key ∨
          ∃ result_data, (calls key).poll = .json result_data ∧ (calls key).Stores result_data ∧
            Completed config (check_processing_object config calls w key).1 key)) := by
  obtain ⟨raised, hsame⟩ | ⟨id, hpending, _⟩ := check_processing_object_cases config calls w key
  · exact .inl (by rw [hsame])
  obtain ⟨data, hdata, _, hnot⟩ := hpending.record
  have hlogKey := h.logKey key hkey _ hdata
  refine .inr ⟨hlogKey, ?_, check_completes hsep hlogKey⟩
  rintro ⟨data', hdata', hdone⟩
  cases hdata.symm.trans hdata'
  rw [hnot] at hdone
  cases hdone

theorem World.Sound.check (h : w.Sound config) (hsep : config.Separate) (calls : Key → CheckCalls)
    (hkey : config.s3_prefix_log <+: key) : (check_processing_object config calls w key).1.Sound config := by
  obtain hsame | ⟨hlogKey, hnot, hself⟩ := h.check_self hsep calls hkey
  · rwa [hsame]
  refine ⟨fun other hlog content hcontent => ?_, fun other hlog hdone => ?_⟩
  · by_cases hne : other = key
    · exact hne ▸ hlogKey
    · exact h.logKey other hlog content ((h.check_other hsep calls hkey hlog hne).symm.trans hcontent)
  · by_cases hne : other = key
    · subst hne
      obtain hsame | ⟨_, _, _, hcompleted⟩ := hself
      · exact absurd (hdone.of_get_eq hsame.symm) hnot
      · exact hcompleted
    · have hsame := h.check_other hsep calls hkey hlog hne
      have hbefore := hdone.of_get_eq hsame.symm
      have hotherKey := hbefore.logKey h hlog
      refine (h.completed other hlog hbefore).of_get_eq polled_check hsame ?_ ?_
      · refine check_frame (hsep.ne_result_key hkey other).symm (fun heq => hne ?_)
          (hotherKey.result_key_ne_result_text_key key)
        exact result_key_inj hlog hkey heq
      · refine check_frame (ne_result_text_key hlogKey.json_suffix other).symm
          (hlogKey.result_key_ne_result_text_key other).symm (fun heq => hne ?_)
        exact hotherKey.result_text_key_inj hlogKey heq

/-- No newly created operation is done. -/
def RunCalls.StartsOperations (calls : RunCalls) : Prop :=
  ∀ key data, (calls.submit key).post = .json data → data.done ≠ some true

/-- The record that a request leaves is the old one, or is not done. -/
theorem Submitted.record_eq_or_not_done {calls : SubmitCalls} (h : Submitted config calls w key after)
    (hcalls : ∀ data, calls.post = .json data → data.done ≠ some true) :
    after.bucket.get (key_process config key) = w.bucket.get (key_process config key) ∨
      ¬ Done after.bucket (key_process config key) := by
  obtain hsame | ⟨data, hdata, hanswer⟩ := h.record
  · exact .inl hsame
  · right
    rintro ⟨other, hother, hdone⟩
    cases hdata.symm.trans hother
    obtain rfl | hpost := hanswer
    · cases hdone
    · exact hcalls data hpost hdone

theorem World.Sound.process (h : w.Sound config) (hsep : config.Separate) {calls : RunCalls}
    (hcalls : calls.StartsOperations) (key : Key) :
    (process_input_object config calls.submit w key).1.Sound config := by
  by_cases hsends : Sends config calls.submit w key
  · rw [process_input_object_of_sends hsends]
    have hsubmitted := submitted config (calls.submit key) w key
    exact h.write hsep (logKey_key_process config key) hsubmitted.polled hsubmitted.frame
      (hsubmitted.record_eq_or_not_done (hcalls key))
  · obtain ⟨raised, hsame⟩ := process_input_object_of_not_sends hsends
    rwa [hsame]

theorem not_done_process {calls : RunCalls} (hcalls : calls.StartsOperations)
    (hnot : ¬ Done w.bucket key) (input : Key) :
    ¬ Done (process_input_object config calls.submit w input).1.bucket key := by
  by_cases hsends : Sends config calls.submit w input
  · rw [process_input_object_of_sends hsends]
    have hsubmitted := submitted config (calls.submit input) w input
    by_cases hkey : key = key_process config input
    · subst hkey
      obtain hsame | hnot' := hsubmitted.record_eq_or_not_done (hcalls input)
      · exact fun hdone => hnot (hdone.of_get_eq hsame.symm)
      · exact hnot'
    · exact fun hdone => hnot (hdone.of_get_eq (hsubmitted.frame key hkey).symm)
  · obtain ⟨raised, hsame⟩ := process_input_object_of_not_sends hsends
    rwa [hsame]

/-- What happens to the bucket: a run of the script, or a change that somebody
else makes to another object. -/
inductive Act where
  | run (calls : RunCalls)
  | change (key : Key) (content : Option Content)

def step (config : Config) (w : World) : Act → World
  | .run calls => main config calls w
  | .change key (some content) => { w with bucket := w.bucket.put key content }
  | .change key none => { w with bucket := w.bucket.erase key }

/-- Only the script writes under the log and output prefixes, and no operation is
done when it is created. -/
def Act.Allowed (config : Config) : Act → Prop
  | .run calls => calls.StartsOperations
  | .change key _ => ¬ config.s3_prefix_log <+: key ∧ ¬ config.s3_prefix_output <+: key

theorem World.Sound.ran (h : w.Sound config) (hsep : config.Separate) {calls : RunCalls}
    (hcalls : calls.StartsOperations) : (main config calls w).Sound config :=
  main_keeps (World.Sound config) (fun _ key _ hs => hs.process hsep hcalls key)
    (fun _ _ hkey hs => hs.check hsep calls.check hkey) h

/-- A change to an object that is neither a log nor an output one. -/
theorem World.Sound.change (h : w.Sound config) (hpolled : after.polled = w.polled)
    (hsame : ∀ key, config.s3_prefix_log <+: key ∨ config.s3_prefix_output <+: key →
      after.bucket.get key = w.bucket.get key) : after.Sound config := by
  refine ⟨fun key hlog content hcontent => ?_, fun key hlog hdone => ?_⟩
  · exact h.logKey key hlog content ((hsame key (.inl hlog)).symm.trans hcontent)
  · have hbefore := hdone.of_get_eq (hsame key (.inl hlog)).symm
    have hlogKey := hbefore.logKey h hlog
    exact (h.completed key hlog hbefore).of_get_eq (hpolled ▸ List.prefix_rfl) (hsame key (.inl hlog))
      (hsame _ (.inr (output_prefix_result_key config key))) (hsame _ (.inr hlogKey.output_prefix_result_text_key))

theorem World.Sound.stepped (h : w.Sound config) (hsep : config.Separate) {act : Act} (hact : act.Allowed config) :
    (step config w act).Sound config := by
  cases act with
  | run calls => exact h.ran hsep hact
  | change key content =>
    have hne (other : Key) (hother : config.s3_prefix_log <+: other ∨ config.s3_prefix_output <+: other) :
        other ≠ key := by
      rintro rfl
      exact hother.elim hact.1 hact.2
    cases content with
    | none => exact h.change rfl fun other hother => Store.get_erase_of_ne _ (hne other hother)
    | some content => exact h.change rfl fun other hother => Store.get_put_of_ne _ _ (hne other hother)

/-- A poll has finished the operation, but one of the writes for it fails. -/
def CheckCalls.WriteFails (calls : CheckCalls) : Prop :=
  ∃ result_data, calls.poll = .json result_data ∧ ¬ calls.Stores result_data

theorem World.Sound.not_done_check (h : w.Sound config) (hsep : config.Separate) {calls : Key → CheckCalls}
    (hlog : config.s3_prefix_log <+: key) (hnot : ¬ Done w.bucket key) (hfails : (calls key).WriteFails)
    {checked : Key} (hchecked : config.s3_prefix_log <+: checked) :
    ¬ Done (check_processing_object config calls w checked).1.bucket key := by
  by_cases hkey : key = checked
  · subst hkey
    obtain hsame | ⟨_, _, hsame | ⟨result_data, hpoll, hstores, _⟩⟩ := h.check_self hsep calls hlog
    · rwa [hsame]
    · exact fun hdone => hnot (hdone.of_get_eq hsame.symm)
    · obtain ⟨other, hother, hfails⟩ := hfails
      cases hpoll.symm.trans hother
      exact absurd hstores hfails
  · exact fun hdone => hnot (hdone.of_get_eq (h.check_other hsep calls hchecked hlog hkey).symm)

/-- A failure at any write leaves the record of an operation not done. -/
theorem World.Sound.not_done_main (h : w.Sound config) (hsep : config.Separate) {calls : RunCalls}
    (hcalls : calls.StartsOperations) (hlog : config.s3_prefix_log <+: key) (hnot : ¬ Done w.bucket key)
    (hfails : (calls.check key).WriteFails) : ¬ Done (main config calls w).bucket key := by
  refine (main_keeps (fun s : World => s.Sound config ∧ ¬ Done s.bucket key) (fun s input _ hs => ?_)
    (fun s checked hchecked hs => ?_) ⟨h, hnot⟩).2
  · exact ⟨hs.1.process hsep hcalls input, not_done_process hcalls hs.2 input⟩
  · exact ⟨hs.1.check hsep calls.check hchecked, hs.1.not_done_check hsep hlog hs.2 hfails hchecked⟩

end sound

/-- From a bucket without log objects, in every sequence of runs, with changes
to other objects between them, every record that is done has its results stored,
and a failure at any write leaves the record not done. -/
theorem done_results_stored (config : Config) (hsep : config.Separate) (w : World)
    (hfresh : ∀ key, config.s3_prefix_log <+: key → w.bucket.get key = none) (acts : List Act)
    (hacts : ∀ act ∈ acts, act.Allowed config) :
    (∀ key, config.s3_prefix_log <+: key → Done (acts.foldl (step config) w).bucket key →
      Completed config (acts.foldl (step config) w) key) ∧
    ∀ calls : RunCalls, calls.StartsOperations → ∀ key, config.s3_prefix_log <+: key →
      ¬ Done (acts.foldl (step config) w).bucket key → (calls.check key).WriteFails →
        ¬ Done (main config calls (acts.foldl (step config) w)).bucket key := by
  have hinit : w.Sound config := by
    refine ⟨fun key hlog content hcontent => ?_, fun key hlog ⟨data, hdata, _⟩ => ?_⟩
    · simp [hfresh key hlog] at hcontent
    · simp [hfresh key hlog] at hdata
  have hsound := (Along.of_forall_mem hacts w).keeps (fun s act hs hact => hs.stepped hsep hact) hinit
  exact ⟨hsound.1.completed, fun calls hcalls key hlog hnot hfails =>
    hsound.1.not_done_main hsep hcalls hlog hnot hfails⟩

/-- One input, whose operation is finished in the second run. -/
theorem done_results_stored_example :
    let config : Config := ⟨"in/".toList, "log/".toList, "out/".toList⟩
    let running : JsonData := { id := some "op", done := some false }
    let finished : JsonData := { id := some "op", done := some true, chunks := some [] }
    let runCalls (poll : JsonData) : RunCalls :=
      { submit := fun _ => { post := .json running }, check := fun _ => { poll := .json poll } }
    let w : World := { bucket := Store.empty.put "in/a.ogg".toList .other }
    let last := [Act.run (runCalls running), .run (runCalls finished)].foldl (step config) w
    Done last.bucket "log/a.ogg.json".toList ∧ Completed config last "log/a.ogg.json".toList ∧
      last.bucket.get "out/a.ogg.json".toList = some (.json finished) ∧
        ∀ calls : RunCalls, calls.StartsOperations → ∀ key, config.s3_prefix_log <+: key →
          ¬ Done last.bucket key → (calls.check key).WriteFails → ¬ Done (main config calls last).bucket key := by
  intro config running finished runCalls w last
  have hcalls (poll : JsonData) : (runCalls poll).StartsOperations := by
    intro key data hdata
    cases hdata
    decide
  have hfresh (key : Key) (hlog : config.s3_prefix_log <+: key) : w.bucket.get key = none := by
    refine Store.get_put_of_ne _ _ ?_
    rintro rfl
    exact absurd hlog (by decide)
  have hacts : ∀ act ∈ [Act.run (runCalls running), .run (runCalls finished)], act.Allowed config :=
    List.forall_mem_cons.mpr ⟨hcalls running, List.forall_mem_singleton.mpr (hcalls finished)⟩
  obtain ⟨hcompleted, hfails⟩ := done_results_stored config (.of_incomparable (by decide) (by decide)) w hfresh _ hacts
  have hrecord :
      last.bucket.get "log/a.ogg.json".toList = some (.json { id := some "op", done := some true }) := by
    decide
  have hdone : Done last.bucket "log/a.ogg.json".toList := ⟨_, hrecord, rfl⟩
  have hresult : last.bucket.get "out/a.ogg.json".toList = some (.json finished) := by decide
  exact ⟨hdone, hcompleted _ (by decide) hdone, hresult, hfails⟩

end solution_library.asr_batch
