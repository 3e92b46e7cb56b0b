import SolutionLibrary.AsrBatch.Completion

open solution_library.invariant
open solution_library.loop
open solution_library.object_storage
open solution_library.store

namespace solution_library.asr_batch

/-- The inputs that a run sends for recognition. -/
def sentIn (config : Config) (calls : RunCalls) (w : World) : List Key :=
  (main config calls w).sent.drop w.sent.length

/-- A run sends an input for recognition, or its first loop overwrites the log
object of the input. -/
def Resubmits (config : Config) (calls : RunCalls) (w : World) (key : Key) : Prop :=
  key ∈ sentIn config calls w ∨
    (process_input_objects config calls.inputs calls.submit w).1.bucket.get (key_process config key) ≠
      w.bucket.get (key_process config key)

/-- Nobody else changes the log objects. -/
def Act.KeepsLog (config : Config) : Act → Prop
  | .run _ => True
  | .change key _ => ¬ config.s3_prefix_log <+: key

/-- Once the log object of an input has been there, no run submits the input. -/
def NeverResubmitted (config : Config) (start : World) (acts : List Act) : Prop :=
  ∀ earlier middle calls later, acts = earlier ++ middle ++ .run calls :: later →
    ∀ key, config.s3_prefix <+: key → Recorded config (earlier.foldl (step config) start).bucket key →
      ¬ Resubmits config calls ((earlier ++ middle).foldl (step config) start) key

/-- HEAD is answered for an input that has a log object, or making the URL raises. -/
def Answered (config : Config) (calls : RunCalls) (w : World) (key : Key) : Prop :=
  supported key → Recorded config w.bucket key →
    (calls.submit key).head = true ∨ (calls.submit key).presigned = .raised

/-- An exception for an input object ends the first loop. -/
def Raises (config : Config) (calls : RunCalls) (w : World) (key : Key) : Prop :=
  supported key ∧ ¬ (Recorded config w.bucket key ∧ (calls.submit key).head = true) ∧
    ((calls.submit key).presigned = .raised ∨ create_recognition_task (calls.submit key).post = none ∨
      create_recognition_task (calls.submit key).post ≠ some none ∧ ∃ stored, (calls.submit key).put = .raised stored)

/-- HEAD is answered for every input with a log object that the first loop comes to. -/
def Act.HeadsAnswered (config : Config) (w : World) : Act → Prop
  | .run calls => calls.inputs = .ok → ∀ before key after,
      list_objects_v2 w.bucket config.s3_prefix = before ++ key :: after →
        (∀ other ∈ before, ¬ Raises config calls w other) → Answered config calls w key
  | .change _ _ => True

section sent

variable {config : Config} {w : World} {key other : Key}

theorem sent_write_results (calls : CheckCalls) (w : World) (key : Key) (id : String) (result_data : JsonData) :
    (write_results config calls w key id result_data).1.sent = w.sent :=
  write_results_keeps (fun s : World => s.sent = w.sent) calls key id result_data (fun _ _ _ _ _ hs => hs) rfl

theorem sent_check (calls : Key → CheckCalls) (w : World) (key : Key) :
    (check_processing_object config calls w key).1.sent = w.sent := by
  obtain ⟨raised, hsame⟩ | ⟨id, _, hpolled⟩ := check_processing_object_cases config calls w key
  · rw [hsame]
  rw [hpolled]
  obtain ⟨raised, hsame⟩ | ⟨result_data, _, _, hfinished⟩ := check_operation_cases config (calls key) w key id
  · rw [hsame]
  · rw [hfinished, sent_write_results]

theorem sent_main (calls : RunCalls) (w : World) :
    (main config calls w).sent = (process_input_objects config calls.inputs calls.submit w).1.sent :=
  main_keeps_of_processed
    (fun s : World => s.sent = (process_input_objects config calls.inputs calls.submit w).1.sent)
    (fun s key _ hs => (sent_check calls.check s key).trans hs) rfl

theorem sent_process {calls : Key → SubmitCalls} (h : Sends config calls w key) :
    (process_input_object config calls w key).1.sent = w.sent ++ [key] := by
  rw [process_input_object_of_sends h]
  exact (submitted config (calls key) w key).sent

theorem mem_drop_process {calls : Key → SubmitCalls} {n : ℕ} (h : other ∈ w.sent.drop n) :
    other ∈ (process_input_object config calls w key).1.sent.drop n := by
  by_cases hsends : Sends config calls w key
  · rw [sent_process hsends, List.drop_append]
    exact List.mem_append_left _ h
  · obtain ⟨raised, hsame⟩ := process_input_object_of_not_sends hsends
    rwa [hsame]

/-- So far the first loop of a run that started in `w` has not submitted an input
with a log object. -/
structure Fresh (config : Config) (w s : World) : Prop where
  sent : ∃ new : List Key, s.sent = w.sent ++ new ∧ ∀ key ∈ new, ¬ Recorded config w.bucket key
  record : ∀ key, config.s3_prefix <+: key → Recorded config w.bucket key →
    s.bucket.get (key_process config key) = w.bucket.get (key_process config key)

theorem Fresh.process {s : World} {calls : RunCalls} (h : Fresh config w s) (hkey : config.s3_prefix <+: key)
    (hanswered : Answered config calls w key) :
    Fresh config w (process_input_object config calls.submit s key).1 := by
  by_cases hsends : Sends config calls.submit s key
  · have hnot : ¬ Recorded config w.bucket key := by
      intro hrecorded
      obtain hhead | hraised := hanswered hsends.1 hrecorded
      · have hsame : Recorded config s.bucket key := by
          rw [Recorded, h.record key hkey hrecorded]
          exact hrecorded
        exact hsends.2.1 ⟨hsame, hhead⟩
      · exact hsends.2.2 hraised
    obtain ⟨new, hsent, hnew⟩ := h.sent
    refine ⟨⟨new ++ [key], ?_, ?_⟩, fun other hother hrecorded => ?_⟩
    · rw [sent_process hsends, hsent, List.append_assoc]
    · intro input hinput
      obtain hinput | hinput := List.mem_append.mp hinput
      · exact hnew input hinput
      · exact List.mem_singleton.mp hinput ▸ hnot
    · rw [process_input_object_of_sends hsends]
      have hne : key_process config other ≠ key_process config key := by
        intro heq
        exact hnot (key_process_inj hother hkey heq ▸ hrecorded)
      rw [(submitted config (calls.submit key) s key).frame _ hne, h.record other hother hrecorded]
  · obtain ⟨raised, hsame⟩ := process_input_object_of_not_sends hsends
    rwa [hsame]

theorem submit_input_object_raised (calls : SubmitCalls) : (submit_input_object config calls w key).2 = true ↔
    create_recognition_task calls.post = none ∨
      create_recognition_task calls.post ≠ some none ∧ ∃ stored, calls.put = .raised stored := by
  rw [submit_input_object]
  cases create_recognition_task calls.post with
  | none => simp
  | some answer =>
    cases answer with
    | none => simp
    | some data => cases calls.put <;> simp [write_process_status]

theorem process_input_object_raised (calls : RunCalls) :
    (process_input_object config calls.submit w key).2 = true ↔ Raises config calls w key := by
  rw [process_input_object, Raises, Recorded]
  by_cases hsupported : supported key
  · by_cases hfound : (w.bucket.get (key_process config key)).isSome ∧ (calls.submit key).head = true
    · rw [if_neg (not_not_intro hsupported), if_pos hfound]
      simp [hfound]
    · rw [if_neg (not_not_intro hsupported), if_neg hfound, and_iff_right hsupported, and_iff_right hfound]
      cases (calls.submit key).presigned with
      | raised => simp
      | ok | clientError => simpa using submit_input_object_raised (calls.submit key)
  · rw [if_pos hsupported]
    simp [hsupported]

/-- The iterations of the first loop touch different log objects. -/
theorem separate_process (config : Config) (calls : RunCalls) (bucket : Bucket) :
    Separate (process_input_object config calls.submit) (fun key s => s.bucket.get (key_process config key))
      (list_objects_v2 bucket config.s3_prefix) where
  frame s key hkey other hother hne := by
    by_cases hsends : Sends config calls.submit s key
    · rw [process_input_object_of_sends hsends]
      refine (submitted config (calls.submit key) s key).frame _ fun heq => hne ?_
      exact key_process_inj (mem_list_objects_v2 hother) (mem_list_objects_v2 hkey) heq
    · obtain ⟨raised, hsame⟩ := process_input_object_of_not_sends hsends
      rw [hsame]
  raised s s' key _ hview := by
    rw [Bool.eq_iff_iff, process_input_object_raised, process_input_object_raised]
    simp only [Raises, Recorded, hview]

theorem headsAnswered_iff_reached {calls : RunCalls} (hinputs : calls.inputs = .ok) :
    (Act.run calls).HeadsAnswered config w ↔ Reached (process_input_object config calls.submit)
      (fun _ key => Answered config calls w key) w (list_objects_v2 w.bucket config.s3_prefix) := by
  rw [(separate_process config calls w.bucket).reached_iff (nodup_list_objects_v2 _ _), Act.HeadsAnswered,
    forall_prop_of_true hinputs]
  simp only [← process_input_object_raised, Bool.not_eq_true]

theorem Fresh.not_resubmits {calls : RunCalls} (hkey : config.s3_prefix <+: key)
    (hrecorded : Recorded config w.bucket key)
    (h : Fresh config w (process_input_objects config calls.inputs calls.submit w).1) :
    ¬ Resubmits config calls w key := by
  rintro (hsent | hchanged)
  · obtain ⟨new, heq, hnew⟩ := h.sent
    rw [sentIn, sent_main, heq, List.drop_left] at hsent
    exact hnew key hsent hrecorded
  · exact hchanged (h.record key hkey hrecorded)

/-- A run submits an input with a log object exactly when HEAD is not answered for
one that it comes to. -/
theorem resubmits_iff (config : Config) (calls : RunCalls) (w : World) :
    (∀ key, config.s3_prefix <+: key → Recorded config w.bucket key → ¬ Resubmits config calls w key) ↔
      (Act.run calls).HeadsAnswered config w := by
  have hstart : Fresh config w w := ⟨⟨[], by simp⟩, fun _ _ _ => rfl⟩
  cases hinputs : calls.inputs with
  | raised | clientError =>
    refine iff_of_true (fun key hkey hrecorded => Fresh.not_resubmits hkey hrecorded ?_) fun hok => ?_
    · rwa [hinputs]
    · rw [hinputs] at hok
      cases hok
  | ok =>
    rw [headsAnswered_iff_reached hinputs]
    constructor
    · intro hnever
      -- an input with a log object that the loop has sent
      let bad (s : World) : Prop := ∃ key, config.s3_prefix <+: key ∧ Recorded config w.bucket key ∧
        key ∈ s.sent.drop w.sent.length
      refine (reached_iff_not_bad (Fresh config w) bad ?_ ?_ ?_ ?_ hstart).mpr ?_
      · rintro s ⟨⟨new, hsent, hnew⟩, _⟩ ⟨key, _, hrecorded, hmem⟩
        rw [hsent, List.drop_left] at hmem
        exact hnew key hmem hrecorded
      · exact fun s key hmem hs => hs.process (mem_list_objects_v2 hmem)
      · intro s key hmem hs hnot
        have hkey := mem_list_objects_v2 hmem
        simp only [Answered, not_forall, not_or] at hnot
        obtain ⟨hsupported, hrecorded, hhead, hpresigned⟩ := hnot
        have hsends : Sends config calls.submit s key := ⟨hsupported, fun hfound => hhead hfound.2, hpresigned⟩
        obtain ⟨new, hsent, _⟩ := hs.sent
        refine ⟨key, hkey, hrecorded, ?_⟩
        rw [sent_process hsends, hsent, List.append_assoc, List.drop_left]
        exact List.mem_append_right _ (List.mem_singleton_self key)
      · rintro s other hmem ⟨key, hkey, hrecorded, hsent⟩
        exact ⟨key, hkey, hrecorded, mem_drop_process hsent⟩
      · rintro ⟨key, hkey, hrecorded, hmem⟩
        refine hnever key hkey hrecorded (.inl ?_)
        rw [sentIn, sent_main, hinputs]
        exact hmem
    · intro hanswered key hkey hrecorded
      apply Fresh.not_resubmits hkey hrecorded
      rw [hinputs]
      exact Reached.keeps (Fresh config w) (fun s key hmem hs => hs.process (mem_list_objects_v2 hmem)) hanswered hstart

theorem World.isSome_write (put : Put) (written : Key) (content : Content) (h : (w.bucket.get key).isSome) :
    ((w.write written put content).bucket.get key).isSome := by
  rw [World.write, Put.get_store]
  split
  · rfl
  · exact h

theorem recorded_process {calls : Key → SubmitCalls} (h : Recorded config w.bucket key) :
    Recorded config (process_input_object config calls w other).1.bucket key := by
  by_cases hsends : Sends config calls w other
  · rw [process_input_object_of_sends hsends]
    have hsubmitted := submitted config (calls other) w other
    by_cases hkey : key_process config key = key_process config other
    · rw [Recorded, hkey] at h ⊢
      obtain hsame | ⟨data, hdata, _⟩ := hsubmitted.record
      · rwa [hsame]
      · rw [hdata]
        rfl
    · rwa [Recorded, hsubmitted.frame _ hkey]
  · obtain ⟨raised, hsame⟩ := process_input_object_of_not_sends hsends
    rwa [hsame]

theorem recorded_check {calls : Key → CheckCalls} (h : Recorded config w.bucket key) :
    Recorded config (check_processing_object config calls w other).1.bucket key := by
  obtain ⟨raised, hsame⟩ | ⟨id, _, hpolled⟩ := check_processing_object_cases config calls w other
  · rwa [hsame]
  rw [hpolled]
  obtain ⟨raised, hsame⟩ | ⟨result_data, _, _, hfinished⟩ := check_operation_cases config (calls other) w other id
  · rwa [hsame]
  · rw [hfinished]
    exact write_results_keeps (fun s : World => Recorded config s.bucket key) (calls other) other id result_data
      (fun s written put content _ hs => World.isSome_write put written content hs) h

/-- A run removes no log object. -/
theorem recorded_main (calls : RunCalls) (h : Recorded config w.bucket key) :
    Recorded config (main config calls w).bucket key :=
  main_keeps (fun s : World => Recorded config s.bucket key) (fun _ _ _ hs => recorded_process hs)
    (fun _ _ _ hs => recorded_check hs) h

theorem Recorded.stepped {act : Act} (h : Recorded config w.bucket key) (hact : act.KeepsLog config) :
    Recorded config (step config w act).bucket key := by
  cases act with
  | run calls => exact recorded_main calls h
  | change changed content =>
    have hne : key_process config key ≠ changed := by
      rintro rfl
      exact hact (logKey_key_process config key).under_log
    cases content with
    | none => rwa [step, Recorded, Store.get_erase_of_ne _ hne]
    | some content => rwa [step, Recorded, Store.get_put_of_ne _ _ hne]

end sent

/-- In every sequence of runs, with changes to other objects between them, no
input with a log object is submitted again exactly when HEAD is answered for
every such input that a run comes to. -/
theorem never_resubmitted_iff (config : Config) (start : World) (acts : List Act)
    (hacts : ∀ act ∈ acts, act.KeepsLog config) :
    NeverResubmitted config start acts ↔ Along (step config) (fun w act => act.HeadsAnswered config w) start acts := by
  constructor
  · intro hnever
    by_contra hnot
    obtain ⟨before, act, after, rfl, hact⟩ := exists_of_not_along hnot
    cases act with
    | change key content => exact hact trivial
    | run calls =>
      refine hact ((resubmits_iff config calls _).mp fun key hkey hrecorded => ?_)
      simpa using hnever before [] calls after (by simp) key hkey hrecorded
  · rintro hanswered earlier middle calls later rfl key hkey hrecorded
    have hkeeps (s : World) (act : Act) (hs : Recorded config s.bucket key) (hact : act.KeepsLog config) :=
      hs.stepped hact
    have hmiddle (act : Act) (hact : act ∈ middle) : act.KeepsLog config :=
      hacts act (List.mem_append_left _ (List.mem_append_right _ hact))
    have hrecorded := ((Along.of_forall_mem hmiddle _).keeps hkeeps hrecorded).1
    rw [← List.foldl_append] at hrecorded
    exact (resubmits_iff config calls _).mpr (along_append.mp hanswered).2.1 key hkey hrecorded

/-- The first run submits the input and finds its operation finished; in the
second one HEAD fails. -/
theorem finished_record_overwritten :
    let config : Config := ⟨"in/".toList, "log/".toList, "out/".toList⟩
    let start : World := { bucket := Store.empty.put "in/a.ogg".toList .other }
    let finished : JsonData := { id := some "op", done := some true, chunks := some [] }
    let first : RunCalls :=
      { submit := fun _ => { post := .json { id := some "op", done := some false } },
        check := fun _ => { poll := .json finished } }
    let second : RunCalls :=
      { submit := fun _ => { head := false, post := .json { id := some "op2", done := some false } },
        check := fun _ => { poll := .failed } }
    ¬ NeverResubmitted config start [.run first, .run second] ∧
      (step config start (.run first)).bucket.get "log/a.ogg.json".toList =
        some (.json { id := some "op", done := some true }) ∧
      ([Act.run first, .run second].foldl (step config) start).bucket.get "log/a.ogg.json".toList =
        some (.json { id := some "op2", done := some false }) := by
  intro config start finished first second
  refine ⟨fun hnever => ?_, by decide, by decide⟩
  exact hnever [.run first] [] second [] rfl "in/a.ogg".toList (by decide) (by decide) (.inl (by decide))

/-- A run that comes to an input with a log object, and one that comes to none. -/
theorem never_resubmitted_example :
    let config : Config := ⟨"in/".toList, "log/".toList, "out/".toList⟩
    let start : World := { bucket := Store.empty.put "in/a.ogg".toList .other }
    let calls : RunCalls :=
      { submit := fun _ => { post := .json { id := some "op", done := some false } },
        check := fun _ => { poll := .failed } }
    NeverResubmitted config start [.run calls, .run calls] := by
  intro config start calls
  have hruns : ∀ act ∈ [Act.run calls, .run calls], act.KeepsLog config := by simp [Act.KeepsLog]
  refine (never_resubmitted_iff config start _ hruns).mpr ⟨?_, ?_, trivial⟩
  · intro _ before key after _ _ _ _
    exact .inl rfl
  · intro _ before key after _ _ _ _
    exact .inl rfl

end solution_library.asr_batch
