import SolutionLibrary.AsrBatch.Completion

open solution_library.invariant
open solution_library.object_storage
open solution_library.store

namespace solution_library.asr_batch.overlapping

/-- Where a run is in the body of the loop over the input objects. -/
inductive Submission where
  | missing
  | answered (data : JsonData)

/-- Where a run is in the body of the loop over the log objects. -/
inductive Check where
  | polling (id : String)
  | storing (id : String) (result_data : JsonData)
  | texting (id : String) (result_data : JsonData) (text : String)
  | finishing (id : String) (result_data : JsonData)

/-- A log object with the operation that a run has finished for it, and the answer
that the run has got. -/
abbrev Finished := Key × String × JsonData

/-- Runs that overlap, each with the object that it is at. Which of these objects
are in the hands of one run does not matter. `finished` are the runs that have
written a record that is done. -/
structure State where
  world : World
  submissions : List (Key × Submission) := []
  checks : List (Key × Check) := []
  finished : List Finished := []

/-- A call of some run, or a change that somebody else makes. A run that an
exception ends, or that is stopped, makes no further call. -/
inductive Act where
  | head (key : Key) (head : Bool)
  | submit (submission : ℕ) (presigned : Reply) (post : Answer) (put : Put)
  | read (key : Key) (read : Reply)
  | check (check : ℕ) (poll : Answer) (put : Put)
  | change (key : Key) (content : Option Content)

/-- HEAD: the run goes on with an object for which no log object is found. -/
def found_missing (config : Config) (w : World) (key : Key) (head : Bool) : Option Submission :=
  if supported key ∧ ¬ (Recorded config w.bucket key ∧ head = true) then some .missing else none

/-- The next call for an input object. -/
def submit (config : Config) (w : World) (key : Key) (presigned : Reply) (post : Answer) (put : Put) :
    Submission → World × Option Submission
  | .missing =>
    match presigned with
    | .raised => (w, none)
    | .ok | .clientError =>
      ({ w with sent := w.sent ++ [key] }, (create_recognition_task post).join.map .answered)
  | .answered data => ((write_process_status w (key_process config key) put data).1, none)

/-- The record of a log object is read. -/
def read_record (w : World) (key : Key) (read : Reply) : Option Check :=
  if ¬ ".json".toList.isSuffixOf key then none
  else
    match read, w.bucket.get key with
    | .ok, some (.json data) =>
      match data.id, data.done with
      | some id, some false => if id = "" then none else some (.polling id)
      | _, _ => none
    | _, _ => none

/-- The next call for a log object. -/
def check (config : Config) (w : World) (key : Key) (poll : Answer) (put : Put) : Check → World × Option Check
  | .polling id =>
    let w := { w with polled := w.polled ++ [(key, id, poll)] }
    match poll with
    | .raised | .failed => (w, none)
    | .json result_data => (w, if result_data.done = some true then some (.storing id result_data) else none)
  | .storing id result_data =>
    let w := w.write (result_key config key) put (.json result_data)
    match put with
    | .raised _ | .clientError => (w, none)
    | .ok =>
      match result_data.chunks with
      | none => (w, some (.finishing id result_data))
      | some chunks => (w, (result_text chunks).map (.texting id result_data))
  | .texting id result_data text =>
    let w := w.write (result_text_key config key) put (.text text)
    match put with
    | .raised _ | .clientError => (w, none)
    | .ok => (w, some (.finishing id result_data))
  | .finishing id _ => ((write_done { poll, putRecord := put } w key id).1, none)

/-- The run writes a record that is done. -/
def Check.finished (key : Key) (put : Put) : Check → List Finished
  | .finishing id result_data => if put.stores then [(key, id, result_data)] else []
  | .polling _ | .storing _ _ | .texting _ _ _ => []

def step (config : Config) (s : State) : Act → State
  | .head key head =>
    { s with submissions := (found_missing config s.world key head).toList.map (key, ·) ++ s.submissions }
  | .submit submission presigned post put =>
    match s.submissions[submission]? with
    | none => s
    | some (key, stage) =>
      let (world, next) := submit config s.world key presigned post put stage
      { s with world, submissions := next.toList.map (key, ·) ++ s.submissions.eraseIdx submission }
  | .read key read => { s with checks := (read_record s.world key read).toList.map (key, ·) ++ s.checks }
  | .check check poll put =>
    match s.checks[check]? with
    | none => s
    | some (key, stage) =>
      let (world, next) := overlapping.check config s.world key poll put stage
      { s with
        world
        checks := next.toList.map (key, ·) ++ s.checks.eraseIdx check
        finished := s.finished ++ stage.finished key put }
  | .change key (some content) => { s with world := { s.world with bucket := s.world.bucket.put key content } }
  | .change key none => { s with world := { s.world with bucket := s.world.bucket.erase key } }

/-- The runs go through what is under their prefixes, no operation is done when
it is created, and nobody else writes under the log and output prefixes. -/
def Act.Allowed (config : Config) : Act → Prop
  | .head key _ => config.s3_prefix <+: key
  | .submit _ _ post _ => ∀ data, post = .json data → data.done ≠ some true
  | .read key _ => config.s3_prefix_log <+: key
  | .check _ _ _ => True
  | .change key _ => ¬ config.s3_prefix_log <+: key ∧ ¬ config.s3_prefix_output <+: key

/-- The write of a stage, among those that one run meets. -/
def Check.put (calls : CheckCalls) : Check → Put
  | .polling _ | .storing _ _ => calls.putResult
  | .texting _ _ _ => calls.putText
  | .finishing _ _ => calls.putRecord

/-- The calls of one run for a log object, without others between them. -/
def checkNext (config : Config) (calls : CheckCalls) (key : Key) (now : World × Option Check) : World × Option Check :=
  match now.2 with
  | none => now
  | some stage => check config now.1 key calls.poll (stage.put calls) stage

def submitNext (config : Config) (calls : SubmitCalls) (key : Key) (now : World × Option Submission) :
    World × Option Submission :=
  match now.2 with
  | none => now
  | some stage => submit config now.1 key calls.presigned calls.post calls.put stage

section alone

variable {config : Config} {w : World} {key : Key}

theorem checkNext_operation (calls : CheckCalls) (id : String) :
    (checkNext config calls key)^[4] (w, some (.polling id)) = ((check_operation config calls w key id).1, none) := by
  rw [check_operation]
  cases hpoll : calls.poll with
  | raised | failed => simp [checkNext, check, hpoll]
  | json result_data =>
    cases hdone : result_data.done with
    | none => simp [checkNext, check, hpoll, hdone]
    | some done =>
      cases done with
      | false => simp [checkNext, check, hpoll, hdone]
      | true =>
        simp only [write_results]
        cases hresult : calls.putResult with
        | raised | clientError => simp [checkNext, check, Check.put, hpoll, hdone, hresult]
        | ok =>
          cases hchunks : result_data.chunks with
          | none => simp [checkNext, check, Check.put, write_done, hpoll, hdone, hresult, hchunks]
          | some chunks =>
            cases htext : result_text chunks with
            | none => simp [checkNext, check, Check.put, hpoll, hdone, hresult, hchunks, htext]
            | some text =>
              cases hput : calls.putText with
              | raised | clientError => simp [checkNext, check, Check.put, hpoll, hdone, hresult, hchunks, htext, hput]
              | ok => simp [checkNext, check, Check.put, write_done, hpoll, hdone, hresult, hchunks, htext, hput]

/-- The body of the second loop is what these calls do when nothing comes between
them. -/
theorem check_alone (calls : Key → CheckCalls) :
    (checkNext config (calls key) key)^[4] (w, read_record w key (calls key).read) =
      ((check_processing_object config calls w key).1, none) := by
  have hended (w : World) : (checkNext config (calls key) key)^[4] (w, none) = (w, none) := rfl
  unfold read_record
  rw [check_processing_object]
  by_cases hjson : ".json".toList.isSuffixOf key = true
  · rw [if_neg (not_not_intro hjson), if_neg (not_not_intro hjson)]
    cases hread : (calls key).read with
    | raised => exact hended w
    | clientError => exact hended w
    | ok =>
      cases hget : w.bucket.get key with
      | none => exact hended w
      | some content =>
        cases content with
        | text text => exact hended w
        | other => exact hended w
        | json data =>
          cases hid : data.id with
          | none => simpa [hid] using hended w
          | some id =>
            by_cases hempty : id = ""
            · cases hdone : data.done with
              | none => simpa [hid, hempty, hdone] using hended w
              | some done => cases done <;> simpa [hid, hempty, hdone] using hended w
            · cases hdone : data.done with
              | none => simpa [hid, hempty, hdone] using hended w
              | some done =>
                cases done with
                | true => simpa [hid, hempty, hdone] using hended w
                | false => simpa [hid, hempty, hdone] using checkNext_operation (calls key) id
  · rw [if_pos hjson, if_pos hjson, hended]

/-- The body of the first loop, likewise. -/
theorem submit_alone (calls : Key → SubmitCalls) :
    (submitNext config (calls key) key)^[2] (w, found_missing config w key (calls key).head) =
      ((process_input_object config calls w key).1, none) := by
  by_cases hsends : supported key ∧ ¬ (Recorded config w.bucket key ∧ (calls key).head = true)
  · have hfound := hsends.2
    unfold Recorded at hfound
    rw [found_missing, if_pos hsends, process_input_object, if_neg (not_not_intro hsends.1), if_neg hfound]
    cases hpresigned : (calls key).presigned with
    | raised => simp [submitNext, submit, hpresigned]
    | ok | clientError =>
      rw [submit_input_object]
      cases hpost : create_recognition_task (calls key).post with
      | none => simp [submitNext, submit, hpresigned, hpost]
      | some answer =>
        cases answer with
        | none => simp [submitNext, submit, hpresigned, hpost]
        | some data => simp [submitNext, submit, hpresigned, hpost]
  · have hnot : ¬ Sends config calls w key := fun h => hsends ⟨h.1, h.2.1⟩
    obtain ⟨raised, hsame⟩ := process_input_object_of_not_sends hnot
    rw [found_missing, if_neg hsends, hsame]
    rfl

end alone

/-- A poll has given the answer of a finished operation of the log object. -/
def Answered (w : World) (key : Key) (id : String) (result_data : JsonData) : Prop :=
  (key, id, Answer.json result_data) ∈ w.polled ∧ result_data.done = some true

def Served (w : World) (key : Key) (result_data : JsonData) : Prop :=
  ∃ id, Answered w key id result_data

def HasResult (config : Config) (w : World) (key : Key) : Prop :=
  ∃ result_data, Served w key result_data ∧ w.bucket.get (result_key config key) = some (.json result_data)

def HasText (config : Config) (w : World) (key : Key) : Prop :=
  ∃ result_data chunks text, Served w key result_data ∧ result_data.chunks = some chunks ∧
    result_text chunks = some text ∧ w.bucket.get (result_text_key config key) = some (.text text)

/-- There is a result, and a text if the run that asks has got chunks. They may be
those of other runs. -/
structure Stored (config : Config) (w : World) (key : Key) (id : String) (result_data : JsonData) : Prop where
  answered : Answered w key id result_data
  result : HasResult config w key
  text : result_data.chunks ≠ none → HasText config w key

def Check.Sound (config : Config) (w : World) (key : Key) : Check → Prop
  | .polling _ => True
  | .storing id result_data => Answered w key id result_data
  | .texting id result_data text => Answered w key id result_data ∧ HasResult config w key ∧
      ∃ chunks, result_data.chunks = some chunks ∧ result_text chunks = some text
  | .finishing id result_data => Stored config w key id result_data

/-- What is stored for the log objects stays stored. -/
structure Keeps (config : Config) (w after : World) : Prop where
  polled : w.polled ⊆ after.polled
  result : ∀ key, config.LogKey key → HasResult config w key → HasResult config after key
  text : ∀ key, config.LogKey key → HasText config w key → HasText config after key

section keeps

variable {config : Config} {w after : World} {key : Key} {id : String} {result_data : JsonData}

theorem Answered.mono (h : Answered w key id result_data) (hpolled : w.polled ⊆ after.polled) :
    Answered after key id result_data :=
  ⟨hpolled h.1, h.2⟩

theorem Served.mono (h : Served w key result_data) (hpolled : w.polled ⊆ after.polled) :
    Served after key result_data := by
  obtain ⟨id, hanswered⟩ := h
  exact ⟨id, hanswered.mono hpolled⟩

theorem Keeps.of_get (hpolled : w.polled ⊆ after.polled)
    (hresult : ∀ key, config.LogKey key →
      after.bucket.get (result_key config key) = w.bucket.get (result_key config key) ∨ HasResult config after key)
    (htext : ∀ key, config.LogKey key →
      after.bucket.get (result_text_key config key) = w.bucket.get (result_text_key config key) ∨
        HasText config after key) : Keeps config w after where
  polled := hpolled
  result key hkey := by
    rintro ⟨result_data, hserved, hget⟩
    obtain hsame | hhas := hresult key hkey
    · exact ⟨result_data, hserved.mono hpolled, hsame.trans hget⟩
    · exact hhas
  text key hkey := by
    rintro ⟨result_data, chunks, text, hserved, hchunks, hwords, hget⟩
    obtain hsame | hhas := htext key hkey
    · exact ⟨result_data, chunks, text, hserved.mono hpolled, hchunks, hwords, hsame.trans hget⟩
    · exact hhas

theorem Stored.mono (h : Stored config w key id result_data) (hkeeps : Keeps config w after)
    (hkey : config.LogKey key) : Stored config after key id result_data :=
  ⟨h.answered.mono hkeeps.polled, hkeeps.result key hkey h.result, fun hchunks => hkeeps.text key hkey (h.text hchunks)⟩

theorem Check.Sound.mono {stage : Check} (h : stage.Sound config w key) (hkeeps : Keeps config w after)
    (hkey : config.LogKey key) : stage.Sound config after key := by
  cases stage with
  | polling id => trivial
  | storing id result_data => exact Answered.mono h hkeeps.polled
  | texting id result_data text => exact ⟨h.1.mono hkeeps.polled, hkeeps.result key hkey h.2.1, h.2.2⟩
  | finishing id result_data => exact Stored.mono h hkeeps hkey

/-- A write to a log object. -/
theorem keeps_write_record (hsep : config.Separate) (hkey : config.LogKey key) (put : Put) (content : Content) :
    Keeps config w (w.write key put content) := by
  refine .of_get (List.Subset.refl _) (fun other hother => .inl ?_) fun other hother => .inl ?_
  · exact w.get_write_of_ne put content (hsep.ne_result_key hkey.under_log other).symm
  · exact w.get_write_of_ne put content (ne_result_text_key hkey.json_suffix other).symm

theorem keeps_write_result (hkey : config.LogKey key) (hserved : Served w key result_data) (put : Put) :
    Keeps config w (w.write (result_key config key) put (.json result_data)) := by
  refine .of_get (List.Subset.refl _) (fun other hother => ?_) fun other hother => .inl ?_
  · by_cases hsame : result_key config other = result_key config key
    · obtain rfl := result_key_inj hother.under_log hkey.under_log hsame
      cases hstores : put.stores with
      | false =>
        left
        rw [World.write, Put.get_store, if_neg (by simp [hstores])]
      | true =>
        right
        refine ⟨result_data, hserved, ?_⟩
        rw [World.write, Put.get_store, if_pos ⟨hstores, rfl⟩]
    · exact .inl (w.get_write_of_ne put _ hsame)
  · exact w.get_write_of_ne put _ (hkey.result_key_ne_result_text_key other).symm

theorem keeps_write_text (hkey : config.LogKey key) (hserved : Served w key result_data) {chunks : List Chunk}
    {text : String} (hchunks : result_data.chunks = some chunks) (htext : result_text chunks = some text) (put : Put) :
    Keeps config w (w.write (result_text_key config key) put (.text text)) := by
  refine .of_get (List.Subset.refl _) (fun other hother => .inl ?_) fun other hother => ?_
  · exact w.get_write_of_ne put _ (hother.result_key_ne_result_text_key key)
  · by_cases hsame : result_text_key config other = result_text_key config key
    · obtain rfl := hother.result_text_key_inj hkey hsame
      cases hstores : put.stores with
      | false =>
        left
        rw [World.write, Put.get_store, if_neg (by simp [hstores])]
      | true =>
        right
        refine ⟨result_data, chunks, text, hserved, hchunks, htext, ?_⟩
        rw [World.write, Put.get_store, if_pos ⟨hstores, rfl⟩]
    · exact .inl (w.get_write_of_ne put _ hsame)

end keeps

structure State.Sound (config : Config) (s : State) : Prop where
  logKey : ∀ key, config.s3_prefix_log <+: key → ∀ content, s.world.bucket.get key = some content → config.LogKey key
  done : ∀ key, config.LogKey key → ∀ data, s.world.bucket.get key = some (.json data) → data.done = some true →
    ∃ id result_data, data.id = some id ∧ (key, id, result_data) ∈ s.finished
  finished : ∀ key id result_data, (key, id, result_data) ∈ s.finished →
    config.LogKey key ∧ Stored config s.world key id result_data
  submissions : ∀ key data, (key, .answered data) ∈ s.submissions → data.done ≠ some true
  checks : ∀ key stage, (key, stage) ∈ s.checks → config.LogKey key ∧ stage.Sound config s.world key

section sound

variable {config : Config} {s : State} {after : World} {key : Key}

/-- What a call leaves behind: what is stored stays stored, and a record becomes done
in a run that has stored the answer. -/
structure Follows (config : Config) (w after : World) (finished : List Finished) : Prop where
  keeps : Keeps config w after
  logKey : ∀ key, config.s3_prefix_log <+: key → ∀ content, after.bucket.get key = some content →
    config.LogKey key ∨ w.bucket.get key = some content
  done : ∀ key, config.LogKey key → ∀ data, after.bucket.get key = some (.json data) → data.done = some true →
    w.bucket.get key = some (.json data) ∨ ∃ id result_data, data.id = some id ∧ (key, id, result_data) ∈ finished
  finished : ∀ key id result_data, (key, id, result_data) ∈ finished →
    config.LogKey key ∧ Stored config after key id result_data

theorem State.Sound.follow (h : s.Sound config) {next : State} {finished : List Finished}
    (hafter : Follows config s.world next.world finished) (hfinished : next.finished = s.finished ++ finished)
    (hsubmissions : ∀ key data, (key, .answered data) ∈ next.submissions → data.done ≠ some true)
    (hchecks : ∀ key stage, (key, stage) ∈ next.checks →
      (key, stage) ∈ s.checks ∨ config.LogKey key ∧ stage.Sound config next.world key) : next.Sound config := by
  refine ⟨fun key hlog content hget => ?_, fun key hkey data hdata hdone => ?_,
    fun key id result_data hmem => ?_, hsubmissions, fun key stage hmem => ?_⟩
  · obtain hkey | hbefore := hafter.logKey key hlog content hget
    · exact hkey
    · exact h.logKey key hlog content hbefore
  · rw [hfinished]
    obtain hbefore | ⟨id, result_data, hid, hmem⟩ := hafter.done key hkey data hdata hdone
    · obtain ⟨id, result_data, hid, hmem⟩ := h.done key hkey data hbefore hdone
      exact ⟨id, result_data, hid, List.mem_append_left _ hmem⟩
    · exact ⟨id, result_data, hid, List.mem_append_right _ hmem⟩
  · rw [hfinished] at hmem
    obtain hbefore | hnew := List.mem_append.mp hmem
    · obtain ⟨hkey, hstored⟩ := h.finished key id result_data hbefore
      exact ⟨hkey, hstored.mono hafter.keeps hkey⟩
    · exact hafter.finished key id result_data hnew
  · obtain hbefore | hnew := hchecks key stage hmem
    · obtain ⟨hkey, hstage⟩ := h.checks key stage hbefore
      exact ⟨hkey, hstage.mono hafter.keeps hkey⟩
    · exact hnew

/-- A call that finishes no run. -/
theorem State.Sound.go_on (h : s.Sound config) {next : State} (hafter : Follows config s.world next.world [])
    (hfinished : next.finished = s.finished)
    (hsubmissions : ∀ key data, (key, .answered data) ∈ next.submissions → data.done ≠ some true)
    (hchecks : ∀ key stage, (key, stage) ∈ next.checks →
      (key, stage) ∈ s.checks ∨ config.LogKey key ∧ stage.Sound config next.world key) : next.Sound config :=
  h.follow hafter (hfinished.trans (List.append_nil _).symm) hsubmissions hchecks

/-- A call that changes no object. -/
theorem Follows.of_bucket_eq {w : World} (hbucket : after.bucket = w.bucket) (hpolled : w.polled ⊆ after.polled) :
    Follows config w after [] := by
  refine ⟨.of_get hpolled (fun _ _ => .inl ?_) fun _ _ => .inl ?_, fun key _ content hget => .inr ?_,
    fun key _ data hdata _ => .inl ?_, fun _ _ _ hmem => absurd hmem List.not_mem_nil⟩
  · rw [hbucket]
  · rw [hbucket]
  · rw [← hbucket, hget]
  · rw [← hbucket, hdata]

/-- A write to an output changes no log object. -/
theorem Follows.of_output {w : World} (hkeeps : Keeps config w after)
    (hsame : ∀ key, config.s3_prefix_log <+: key → after.bucket.get key = w.bucket.get key) :
    Follows config w after [] where
  keeps := hkeeps
  logKey key hlog _ hget := .inr ((hsame key hlog).symm.trans hget)
  done key hkey _ hdata _ := .inl ((hsame key hkey.under_log).symm.trans hdata)
  finished _ _ _ hmem := absurd hmem List.not_mem_nil

/-- A write of a record that is not done, or of one whose answer is stored. -/
theorem follows_write_record {w : World} (hsep : config.Separate) (hkey : config.LogKey key) (put : Put)
    (data : JsonData) {finished : List Finished}
    (hdata : put.stores = true → data.done = some true →
      ∃ id result_data, data.id = some id ∧ (key, id, result_data) ∈ finished)
    (hfinished : ∀ other id result_data, (other, id, result_data) ∈ finished →
      other = key ∧ Stored config w key id result_data) :
    Follows config w (w.write key put (.json data)) finished := by
  have hkeeps := keeps_write_record (w := w) hsep hkey put (.json data)
  refine ⟨hkeeps, fun other _ content hget => ?_, fun other _ found hfound hdone => ?_,
    fun other id result_data hmem => ?_⟩
  · by_cases hsame : other = key
    · exact .inl (hsame ▸ hkey)
    · exact .inr ((w.get_write_of_ne put _ hsame).symm.trans hget)
  · by_cases hsame : other = key
    · subst hsame
      rw [World.write, Put.get_store] at hfound
      split_ifs at hfound with hstores
      · cases hfound
        exact .inr (hdata hstores.1 hdone)
      · exact .inl hfound
    · exact .inl ((w.get_write_of_ne put _ hsame).symm.trans hfound)
  · obtain ⟨rfl, hstored⟩ := hfinished other id result_data hmem
    exact ⟨hkey, hstored.mono hkeeps hkey⟩

theorem mem_toList_map {α β : Type*} {next : Option α} {b c : β} {a : α}
    (h : (b, a) ∈ next.toList.map (c, ·)) : b = c ∧ next = some a := by
  obtain ⟨found, hfound, heq⟩ := List.mem_map.mp h
  cases heq
  exact ⟨rfl, Option.mem_toList.mp hfound⟩

theorem State.Sound.submitted (h : s.Sound config) (hsep : config.Separate) {submission : ℕ} {presigned : Reply}
    {post : Answer} {put : Put} (hact : (Act.submit submission presigned post put).Allowed config) :
    (step config s (.submit submission presigned post put)).Sound config := by
  rw [step]
  split
  · exact h
  · next key stage hstage =>
    have hrest (other : Key) (data : JsonData)
        (hmem : (other, Submission.answered data) ∈ s.submissions.eraseIdx submission) : data.done ≠ some true :=
      h.submissions other data (List.mem_of_mem_eraseIdx hmem)
    cases stage with
    | missing =>
      have hnext (other : Key) (data : JsonData) (hmem : (other, Submission.answered data) ∈
          ((create_recognition_task post).join.map .answered).toList.map (key, ·) ++
            s.submissions.eraseIdx submission) : data.done ≠ some true := by
        obtain hmem | hmem := List.mem_append.mp hmem
        · obtain ⟨rfl, hanswer⟩ := mem_toList_map hmem
          obtain ⟨found, hfound, heq⟩ := Option.map_eq_some_iff.mp hanswer
          cases heq
          obtain rfl | hpost := create_recognition_task_eq (Option.join_eq_some_iff.mp hfound)
          · simp
          · exact hact data hpost
        · exact hrest other data hmem
      cases presigned with
      | raised => exact h.go_on (.of_bucket_eq rfl (List.Subset.refl _)) rfl hrest fun _ _ hmem => .inl hmem
      | ok => exact h.go_on (.of_bucket_eq rfl (List.Subset.refl _)) rfl hnext fun _ _ hmem => .inl hmem
      | clientError => exact h.go_on (.of_bucket_eq rfl (List.Subset.refl _)) rfl hnext fun _ _ hmem => .inl hmem
    | answered data =>
      have hdata := h.submissions key data (List.mem_of_getElem? hstage)
      have hfollows : Follows config s.world (s.world.write (key_process config key) put (.json data)) [] :=
        follows_write_record hsep (logKey_key_process config key) put data (fun _ hdone => absurd hdone hdata)
          fun _ _ _ hmem => absurd hmem List.not_mem_nil
      exact h.go_on hfollows rfl hrest fun _ _ hmem => .inl hmem

/-- What is read is there. -/
theorem read_record_eq_some {w : World} {read : Reply} {stage : Check} (h : read_record w key read = some stage) :
    ∃ content id, w.bucket.get key = some content ∧ stage = .polling id := by
  unfold read_record at h
  split at h
  · cases h
  · split at h
    · next data hget =>
      split at h
      · next id _ _ =>
        split_ifs at h
        cases h
        exact ⟨_, id, hget, rfl⟩
      · cases h
    · cases h

/-- Each call for a log object leaves what the next one relies on. -/
theorem follows_check {w : World} (hsep : config.Separate) (hkey : config.LogKey key) {stage : Check}
    (hstage : stage.Sound config w key) (poll : Answer) (put : Put) :
    Follows config w (check config w key poll put stage).1 (stage.finished key put) ∧
      ∀ next, (check config w key poll put stage).2 = some next →
        next.Sound config (check config w key poll put stage).1 key := by
  cases stage with
  | polling id =>
    have hsubset : w.polled ⊆ w.polled ++ [(key, id, poll)] := List.subset_append_left _ _
    cases poll with
    | raised => exact ⟨.of_bucket_eq rfl hsubset, by rintro _ ⟨⟩⟩
    | failed => exact ⟨.of_bucket_eq rfl hsubset, by rintro _ ⟨⟩⟩
    | json result_data =>
      refine ⟨.of_bucket_eq rfl hsubset, fun next hnext => ?_⟩
      simp only [check] at hnext
      split_ifs at hnext with hdone
      · cases hnext
        exact ⟨List.mem_append_right _ (List.mem_singleton_self _), hdone⟩
  | storing id result_data =>
    have hkeeps := keeps_write_result hkey ⟨id, hstage⟩ put
    have hfollows : Follows config w (w.write (result_key config key) put (.json result_data)) [] := by
      refine .of_output hkeeps fun other hother => ?_
      exact w.get_write_of_ne put _ (hsep.ne_result_key hother key)
    cases put with
    | raised stored => exact ⟨hfollows, by rintro _ ⟨⟩⟩
    | clientError => exact ⟨hfollows, by rintro _ ⟨⟩⟩
    | ok =>
      have hanswered : Answered (w.write (result_key config key) .ok (.json result_data)) key id result_data :=
        Answered.mono hstage hkeeps.polled
      have hresult : HasResult config (w.write (result_key config key) .ok (.json result_data)) key :=
        ⟨result_data, ⟨id, hanswered⟩, World.get_write_ok ..⟩
      cases hchunks : result_data.chunks with
      | none =>
        simp only [check, hchunks]
        refine ⟨hfollows, ?_⟩
        rintro _ ⟨⟩
        exact ⟨hanswered, hresult, fun hne => absurd hchunks hne⟩
      | some chunks =>
        simp only [check, hchunks]
        refine ⟨hfollows, fun next hnext => ?_⟩
        obtain ⟨text, htext, rfl⟩ := Option.map_eq_some_iff.mp hnext
        exact ⟨hanswered, hresult, chunks, hchunks, htext⟩
  | texting id result_data text =>
    obtain ⟨hanswered, hresult, chunks, hchunks, htext⟩ := hstage
    have hkeeps := keeps_write_text hkey ⟨id, hanswered⟩ hchunks htext put
    have hfollows : Follows config w (w.write (result_text_key config key) put (.text text)) [] := by
      refine .of_output hkeeps fun other hother => w.get_write_of_ne put _ fun heq => ?_
      exact hsep other hother (heq ▸ hkey.output_prefix_result_text_key)
    cases put with
    | raised stored => exact ⟨hfollows, by rintro _ ⟨⟩⟩
    | clientError => exact ⟨hfollows, by rintro _ ⟨⟩⟩
    | ok =>
      refine ⟨hfollows, ?_⟩
      rintro _ ⟨⟩
      refine ⟨hanswered.mono hkeeps.polled, hkeeps.result key hkey hresult, fun _ => ?_⟩
      exact ⟨result_data, chunks, text, ⟨id, hanswered.mono hkeeps.polled⟩, hchunks, htext, World.get_write_ok ..⟩
  | finishing id result_data =>
    refine ⟨follows_write_record hsep hkey put _ (fun hstores _ => ?_) fun other found answer hmem => ?_,
      by rintro _ ⟨⟩⟩
    · exact ⟨id, result_data, rfl, by rw [Check.finished, if_pos hstores]; exact List.mem_singleton_self _⟩
    · rw [Check.finished, List.mem_ite_nil_right] at hmem
      cases List.mem_singleton.mp hmem.2
      exact ⟨rfl, hstage⟩

theorem State.Sound.checked (h : s.Sound config) (hsep : config.Separate) (check : ℕ) (poll : Answer) (put : Put) :
    (step config s (.check check poll put)).Sound config := by
  rw [step]
  split
  · exact h
  · next key stage hstage =>
    obtain ⟨hkey, hsound⟩ := h.checks key stage (List.mem_of_getElem? hstage)
    obtain ⟨hfollows, hnext⟩ := follows_check hsep hkey hsound poll put
    refine h.follow hfollows rfl h.submissions fun other stage hmem => ?_
    obtain hmem | hmem := List.mem_append.mp hmem
    · obtain ⟨rfl, hstage⟩ := mem_toList_map hmem
      exact .inr ⟨hkey, hnext stage hstage⟩
    · exact .inl (List.mem_of_mem_eraseIdx hmem)

theorem State.Sound.change (h : s.Sound config) {content : Option Content}
    (hact : (Act.change key content).Allowed config) : (step config s (.change key content)).Sound config := by
  have hfollows {after : World} (hpolled : after.polled = s.world.polled)
      (hsame : ∀ other, other ≠ key → after.bucket.get other = s.world.bucket.get other) :
      Follows config s.world after [] := by
    have hlog (other : Key) (hother : config.s3_prefix_log <+: other) :
        after.bucket.get other = s.world.bucket.get other :=
      hsame other fun heq => hact.1 (heq ▸ hother)
    have houtput (other : Key) (hother : config.s3_prefix_output <+: other) :
        after.bucket.get other = s.world.bucket.get other :=
      hsame other fun heq => hact.2 (heq ▸ hother)
    have hkept : s.world.polled ⊆ after.polled := hpolled ▸ List.Subset.refl _
    refine .of_output (.of_get hkept (fun other hother => .inl ?_) fun other hother => .inl ?_) hlog
    · exact houtput _ (output_prefix_result_key config other)
    · exact houtput _ hother.output_prefix_result_text_key
  cases content with
  | none =>
    refine h.go_on (hfollows rfl fun other hother => ?_) rfl h.submissions fun _ _ hmem => .inl hmem
    exact Store.get_erase_of_ne _ hother
  | some content =>
    refine h.go_on (hfollows rfl fun other hother => ?_) rfl h.submissions fun _ _ hmem => .inl hmem
    exact Store.get_put_of_ne _ _ hother

theorem State.Sound.step (h : s.Sound config) (hsep : config.Separate) {act : Act} (hact : act.Allowed config) :
    (step config s act).Sound config := by
  cases act with
  | head key head =>
    refine h.go_on (.of_bucket_eq rfl (List.Subset.refl _)) rfl (fun other data hmem => ?_) fun _ _ hmem => .inl hmem
    obtain hmem | hmem := List.mem_append.mp hmem
    · obtain ⟨-, hfound⟩ := mem_toList_map hmem
      rw [found_missing, Option.ite_none_right_eq_some] at hfound
      cases hfound.2
    · exact h.submissions other data hmem
  | submit submission presigned post put => exact h.submitted hsep hact
  | read key read =>
    refine h.go_on (.of_bucket_eq rfl (List.Subset.refl _)) rfl h.submissions fun other stage hmem => ?_
    obtain hmem | hmem := List.mem_append.mp hmem
    · obtain ⟨rfl, hread⟩ := mem_toList_map hmem
      obtain ⟨content, id, hget, rfl⟩ := read_record_eq_some hread
      exact .inr ⟨h.logKey other hact content hget, trivial⟩
    · exact .inl hmem
  | check check poll put => exact h.checked hsep check poll put
  | change key content => exact h.change hact

end sound

/-- From a bucket without log objects, in every interleaving of the calls of any
number of runs, a run that has written a record that is done has a result stored, and
a text if its own answer has chunks; and a record that is done names the operation of
such a run. When all answers for the object are the same, they are the result and the
text of that answer. -/
theorem overlapping_done_stored (config : Config) (hsep : config.Separate) (w : World)
    (hfresh : ∀ key, config.s3_prefix_log <+: key → w.bucket.get key = none) (acts : List Act)
    (hacts : ∀ act ∈ acts, act.Allowed config) :
    let s := acts.foldl (step config) { world := w }
    (∀ key id result_data, (key, id, result_data) ∈ s.finished → Stored config s.world key id result_data ∧
      ((∀ other, Served s.world key other → other = result_data) →
        ResultStored config s.world.bucket key result_data)) ∧
      ∀ key, config.s3_prefix_log <+: key → ∀ data, s.world.bucket.get key = some (.json data) →
        data.done = some true → ∃ id result_data, data.id = some id ∧ (key, id, result_data) ∈ s.finished := by
  intro s
  have hinit : (State.mk w [] [] []).Sound config := by
    refine ⟨fun key hlog content hcontent => ?_, fun key hkey data hdata _ => ?_, by simp, by simp, by simp⟩
    · simp [hfresh key hlog] at hcontent
    · simp [hfresh key hkey.under_log] at hdata
  have hsound : s.Sound config :=
    ((Along.of_forall_mem hacts _).keeps (fun s act hs hact => hs.step hsep hact) hinit).1
  refine ⟨fun key id result_data hmem => ?_, fun key hlog data hdata hdone => ?_⟩
  · obtain ⟨-, hstored⟩ := hsound.finished key id result_data hmem
    refine ⟨hstored, fun hone => ⟨?_, fun chunks hchunks => ?_⟩⟩
    · obtain ⟨other, hserved, hresult⟩ := hstored.result
      rw [hresult, hone other hserved]
    · obtain ⟨other, found, text, hserved, hfound, htext, hget⟩ := hstored.text (by simp [hchunks])
      obtain rfl := hone other hserved
      cases hfound.symm.trans hchunks
      exact ⟨text, htext, hget⟩
  · exact hsound.done key (hsound.logKey key hlog _ hdata) data hdata hdone

def cron_config : Config :=
  ⟨"in/".toList, "log/".toList, "out/".toList⟩

def running (id : String) : Answer :=
  .json { id := some id, done := some false }

def finished (id : String) : Answer :=
  .json { id := some id, done := some true, chunks := some [] }

/-- Two runs find no log object and submit the input, and then poll the operation
whose record they have read. -/
def submitted_twice : List Act :=
  [.head "in/a.ogg".toList true, .head "in/a.ogg".toList true,
    .submit 0 .ok (running "first") .ok, .submit 0 .ok (running "first") .ok, .read "log/a.ogg.json".toList .ok,
    .submit 0 .ok (running "second") .ok, .submit 0 .ok (running "second") .ok, .read "log/a.ogg.json".toList .ok,
    .check 0 (finished "second") .ok, .check 1 (finished "first") .ok, .check 0 (finished "first") .ok,
    .check 1 (finished "second") .ok, .check 0 (finished "second") .ok, .check 1 (finished "first") .ok,
    .check 0 (finished "first") .ok]

/-- The record is that of the first operation, and the result that of the second
one. -/
theorem overlapping_done_stored_example :
    let s := submitted_twice.foldl (step cron_config)
      { world := { bucket := Store.empty.put "in/a.ogg".toList .other } }
    s.world.bucket.get "log/a.ogg.json".toList = some (.json { id := some "first", done := some true }) ∧
      s.world.bucket.get "out/a.ogg.json".toList =
        some (.json { id := some "second", done := some true, chunks := some [] }) ∧
      ∃ result_data, Stored cron_config s.world "log/a.ogg.json".toList "first" result_data := by
  intro s
  have hrecord :
      s.world.bucket.get "log/a.ogg.json".toList = some (.json { id := some "first", done := some true }) := by
    decide
  have hfresh (key : Key) (hlog : cron_config.s3_prefix_log <+: key) :
      ((Store.empty : Bucket).put "in/a.ogg".toList .other).get key = none := by
    refine Store.get_put_of_ne _ _ ?_
    rintro rfl
    exact absurd hlog (by decide)
  have hacts : ∀ act ∈ submitted_twice, act.Allowed cron_config := by
    simp only [submitted_twice, Act.Allowed, running, List.forall_mem_cons]
    simp [cron_config]
  obtain ⟨hstored, hdone⟩ := overlapping_done_stored cron_config (.of_incomparable (by decide) (by decide))
    { bucket := Store.empty.put "in/a.ogg".toList .other } hfresh submitted_twice hacts
  obtain ⟨id, result_data, hid, hmem⟩ := hdone "log/a.ogg.json".toList (by decide) _ hrecord rfl
  cases hid
  exact ⟨hrecord, by decide, result_data, (hstored _ _ _ hmem).1⟩

end solution_library.asr_batch.overlapping
