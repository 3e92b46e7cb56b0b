import SolutionLibrary.SpeechKitStream.Delivery

open solution_library.invariant

namespace solution_library.speechkit_stream

/-- Every call with audio on it is read. -/
def State.Read (s : State) : Prop :=
  ∀ call ∈ s.calls, call.audio ≠ [] → call.reading = true

instance (s : State) : Decidable s.Read :=
  inferInstanceAs (Decidable (∀ call ∈ s.calls, call.audio ≠ [] → call.reading = true))

/-- A failed call refuses every later write. -/
def Act.Refused (s : State) : Act → Prop
  | .send e => e.Refused s
  | .dispose _ _ => True

instance (s : State) (act : Act) : Decidable (act.Refused s) :=
  match act with
  | .send e => inferInstanceAs (Decidable (e.Refused s))
  | .dispose _ _ => .isTrue trivial

/-- On a call that this attempt creates, the configuration and the audio are
written. -/
structure Attempt.Opens (client : Client) (attempt : Attempt) : Prop where
  creates : attempt.Creates client
  configWritten : attempt.configWritten = true
  audioWritten : attempt.audioWritten = true

/-- The first attempt at a chunk fails: on the current call, or on a new one. -/
def AudioDataEvent.Retries (client : Client) (s : State) (e : AudioDataEvent) : Prop :=
  match (s.count e.audioData).call with
  | some _ => e.first.audioWritten = false
  | none => ¬ e.first.Opens client

/-- The first attempt at a chunk starts a reader. -/
def AudioDataEvent.StartsReading (client : Client) (s : State) (e : AudioDataEvent) : Prop :=
  (s.count e.audioData).call = none ∧ e.first.Creates client ∧ e.first.configWritten = true

/-- The chunk goes to a new call only while the client has no reading task: the
first attempt opens that call, or the retry does. -/
structure AudioDataEvent.OpensRead (client : Client) (s : State) (e : AudioDataEvent) : Prop where
  first : (s.count e.audioData).call = none → e.first.Opens client → s.readTask = none
  retry : e.Retries client s → e.retry.Opens client → s.readTask = none ∧ ¬ e.StartsReading client s

/-- A chunk that gets the mutex goes to a new call only while the client has no
reading task. -/
def Act.OpensRead (client : Client) (s : State) : Act → Prop
  | .send e => e.locked = true → e.OpensRead client s
  | .dispose _ _ => True

/-- Every call with audio is read, and the current call either refuses writes or
is read. -/
def State.Attended : State → Prop :=
  State.Holds (fun call => call.audio ≠ [] → call.reading = true) fun call =>
    call.failed = true ∨ call.reading = true

section attended

variable {client : Client} {s : State} {attempt : Attempt}

theorem Attempt.Opens.openedCall (h : attempt.Opens client) (reads : Bool) (audioData : List UInt8) :
    attempt.openedCall reads audioData = { delivered := [.config, .audio audioData], reading := reads } := by
  simp [Attempt.openedCall, h.configWritten, h.audioWritten]

/-- A call that an attempt creates but does not write both messages to has
failed without audio. -/
theorem Attempt.openedCall_of_not_opens (h : ¬ attempt.Opens client) (hcreates : attempt.Creates client)
    (reads : Bool) (audioData : List UInt8) : (attempt.openedCall reads audioData).audio = [] ∧
      (attempt.openedCall reads audioData).failed = true := by
  have hwritten : ¬ (attempt.configWritten = true ∧ attempt.audioWritten = true) :=
    fun hwritten => h ⟨hcreates, hwritten.1, hwritten.2⟩
  rw [attempt.audio_openedCall]
  unfold Attempt.openedCall
  cases hconfig : attempt.configWritten with
  | false => simp
  | true =>
    have haudio : attempt.audioWritten = false := by simpa [hconfig] using hwritten
    simp [haudio]

/-- A call that gets audio when it is opened has to be read. -/
theorem Attempt.attended_openedCall (hcreates : attempt.Creates client) {reads : Bool}
    (hreads : attempt.Opens client → reads = true) (audioData : List UInt8) :
    ((attempt.openedCall reads audioData).audio ≠ [] → (attempt.openedCall reads audioData).reading = true) ∧
      ((attempt.openedCall reads audioData).failed = true ∨
        (attempt.openedCall reads audioData).reading = true) := by
  by_cases hopens : attempt.Opens client
  · rw [hopens.openedCall, hreads hopens]
    simp
  · obtain ⟨haudio, hfailed⟩ := Attempt.openedCall_of_not_opens hopens hcreates reads audioData
    exact ⟨fun h => absurd haudio h, .inl hfailed⟩

theorem AudioDataEvent.retries_iff {e : AudioDataEvent} :
    e.Retries client s ↔ (writeAudio client (s.count e.audioData) e.audioData e.first).1 = false := by
  unfold AudioDataEvent.Retries
  split
  · next call hcall => rw [writeAudio_of_some hcall]
  · next hcall =>
    rw [writeAudio_of_none hcall]
    split
    · next hcreates =>
      rw [← Bool.not_eq_true, Bool.and_eq_true]
      exact not_congr ⟨fun h => ⟨h.configWritten, h.audioWritten⟩, fun h => ⟨hcreates, h.1, h.2⟩⟩
    · next hcreates => simpa using fun h : e.first.Opens client => hcreates h.creates

/-- After a failed attempt the streaming client has no reading task if it had
none before and the attempt has not started one. -/
theorem AudioDataEvent.reads_of_failed {e : AudioDataEvent} {before : State}
    (hfailed : writeAudio .streaming (s.count e.audioData) e.audioData e.first = (false, before)) :
    before.reads .streaming = true ↔ s.readTask = none ∧ ¬ e.StartsReading .streaming s := by
  have hreads (t : State) : t.reads .streaming = true ↔ t.readTask = none := by simp [State.reads]
  have hcount : (s.count e.audioData).readTask = s.readTask := rfl
  rw [hreads]
  unfold AudioDataEvent.StartsReading
  cases hcall : (s.count e.audioData).call with
  | some call =>
    rw [writeAudio_of_some hcall] at hfailed
    obtain ⟨-, rfl⟩ := Prod.mk.inj hfailed
    simp [State.write, hcount]
  | none =>
    rw [writeAudio_of_none hcall] at hfailed
    split at hfailed
    · next hcreates =>
      obtain ⟨-, rfl⟩ := Prod.mk.inj hfailed
      simp only [State.opened, hreads, hcount, hcreates, true_and]
      cases e.first.configWritten <;> cases s.readTask <;> simp
    · next hcreates =>
      obtain ⟨-, rfl⟩ := Prod.mk.inj hfailed
      simp [hcreates, hcount]

theorem State.Attended.listener (h : s.Attended) {e : AudioDataEvent} (hrefused : e.Refused s)
    (hfirst : e.locked = true → (s.count e.audioData).call = none → e.first.Opens client →
      s.reads client = true)
    (hretry : ∀ before, e.locked = true →
      writeAudio client (s.count e.audioData) e.audioData e.first = (false, before) → e.retry.Opens client →
        before.reads client = true) : (listenerSpeechKitSend client s e).2.Attended := by
  refine State.Holds.listener h (fun call hcurrent hread hready => ?_) (fun hlocked hcall hcreates => ?_)
    fun before hlocked hfailed hcreates => ?_
  · obtain hfailed | hreading := hready
    · rw [hrefused call hcurrent hfailed]
      exact ⟨hread, .inl rfl⟩
    · have hwrite : (call.write (.audio e.audioData) e.first.audioWritten).reading = true := by
        cases e.first.audioWritten <;> exact hreading
      exact ⟨fun _ => hwrite, .inr hwrite⟩
  · exact Attempt.attended_openedCall hcreates (hfirst hlocked hcall) e.audioData
  · exact Attempt.attended_openedCall hcreates (hretry before hlocked hfailed) e.audioData

theorem State.Attended.dispose (h : s.Attended) (client : Client) (locked closed : Bool) :
    (s.dispose client locked closed).Attended :=
  State.Holds.dropped h (dispose_calls client s locked closed).1 (dispose_calls client s locked closed).2

theorem State.Attended.stepped (h : s.Attended) {act : Act} (hrefused : act.Refused s)
    (hopens : act.OpensRead .streaming s) : (step .streaming s act).Attended := by
  cases act with
  | dispose locked closed => exact h.dispose .streaming locked closed
  | send e =>
    refine h.listener hrefused (fun hlocked hcall hfirst => ?_) fun before hlocked hfailed hretry => ?_
    · simpa [State.reads] using (hopens hlocked).first hcall hfirst
    · have hretries : e.Retries .streaming s := AudioDataEvent.retries_iff.mpr (by rw [hfailed])
      exact (AudioDataEvent.reads_of_failed hfailed).mpr ((hopens hlocked).retry hretries hretry)

theorem not_read_of_opens (hcall : s.call = none) (hopens : attempt.Opens .streaming)
    (hreads : s.reads .streaming = false) (audioData : List UInt8) :
    (writeAudio .streaming s audioData attempt).1 = true ∧ ¬ (writeAudio .streaming s audioData attempt).2.Read := by
  rw [writeAudio_of_none hcall, if_pos hopens.creates, hopens.configWritten, hopens.audioWritten]
  refine ⟨rfl, fun hread => ?_⟩
  have hlast := hread (attempt.openedCall (s.reads .streaming) audioData) (by simp [State.opened])
  rw [hopens.openedCall, hreads] at hlast
  simp [Call.audio, Request.audioData] at hlast

/-- A chunk that goes to a new call while the client has a reading task is on a
call that nobody reads. -/
theorem not_read_of_not_openRead {act : Act} (hopens : ¬ act.OpensRead .streaming s) :
    ¬ (step .streaming s act).Read := by
  cases act with
  | dispose => exact absurd trivial hopens
  | send e =>
    have hlocked : e.locked = true := by
      by_contra hlocked
      exact hopens fun h => absurd h hlocked
    by_cases hfirst : (s.count e.audioData).call = none ∧ e.first.Opens .streaming ∧ s.readTask ≠ none
    · obtain ⟨hcall, hfirst, htask⟩ := hfirst
      have hreads : (s.count e.audioData).reads .streaming = false := by
        simpa [State.reads, State.count] using htask
      obtain ⟨hwritten, hread⟩ := not_read_of_opens hcall hfirst hreads e.audioData
      refine listenerSpeechKitSend_rule (fun _ after => ¬ after.Read) hlocked (fun after hafter => ?_)
        fun before hfailed => ?_
      · rwa [hafter] at hread
      · simp [hfailed] at hwritten
    · have hretry : e.Retries .streaming s ∧ e.retry.Opens .streaming ∧
          ¬ (s.readTask = none ∧ ¬ e.StartsReading .streaming s) := by
        by_contra hretry
        refine hopens fun _ => ⟨fun hcall hopens => ?_, fun hretries hopens => ?_⟩
        · exact not_not.mp fun htask => hfirst ⟨hcall, hopens, htask⟩
        · exact not_not.mp fun htask => hretry ⟨hretries, hopens, htask⟩
      obtain ⟨hretries, hretry, htask⟩ := hretry
      refine listenerSpeechKitSend_rule (fun _ after => ¬ after.Read) hlocked (fun after hafter => ?_)
        fun before hfailed => ?_
      · simp [AudioDataEvent.retries_iff, hafter] at hretries
      · have hreads : before.reads .streaming = false := by
          rwa [← AudioDataEvent.reads_of_failed hfailed, Bool.not_eq_true] at htask
        exact (not_read_of_opens (s := { before with call := none }) rfl hretry hreads e.audioData).2

theorem State.Read.of_grows {t : State} (hgrows : Grows s.calls t.calls) (h : t.Read) : s.Read := by
  intro call hcall haudio
  obtain ⟨last, hlast, hextends⟩ := hgrows call hcall
  rw [← hextends.reading]
  apply h last hlast
  obtain ⟨added, hadded⟩ := hextends.delivered
  simp only [Call.audio, ← hadded, List.filterMap_append]
  exact List.append_ne_nil_of_left_ne_nil haudio _

end attended

/-- Where a failed call refuses every later write, the hybrid client reads every call
that has got audio. -/
theorem hybrid_read (acts : List Act) (hrefused : Along (step .hybrid) Act.Refused {} acts) :
    (run .hybrid acts).Read := by
  have hkeeps (s : State) (act : Act) (h : s.Attended) (hrefused : act.Refused s) :
      (step .hybrid s act).Attended := by
    cases act with
    | send e => exact h.listener hrefused (fun _ _ _ => rfl) fun _ _ _ _ => rfl
    | dispose locked closed => exact h.dispose .hybrid locked closed
  exact (hrefused.keeps hkeeps (holds_init _ _)).1.all

/-- The call of the retry is read. -/
theorem hybrid_read_retried :
    let acts : List Act := [.send { audioData := [1] }, .send { audioData := [2], first := { audioWritten := false } }]
    (run .hybrid acts).calls.map Call.audio = [[[1]], [[2]]] ∧ (run .hybrid acts).Read := by
  intro acts
  exact ⟨by decide, hybrid_read acts (by decide)⟩

/-- In a run of the streaming client every call with audio is read exactly when
no chunk goes to a new call while the client has a reading task. -/
theorem read_iff_opens_read (acts : List Act) (hrefused : Along (step .streaming) Act.Refused {} acts) :
    (run .streaming acts).Read ↔ Along (step .streaming) (fun s act => act.OpensRead .streaming s) {} acts := by
  have hexact := along_iff_not_bad State.Attended (fun s => s.Newest ∧ ¬ s.Read) (fun s h hbad => hbad.2 h.all)
    (fun s act h hrefused hopens => h.stepped hrefused hopens)
    (fun s act h _ hopens => ⟨(h.newest.stepped act).1, not_read_of_not_openRead hopens⟩)
    (fun s act h => ⟨(h.1.stepped act).1, fun hread => h.2 (.of_grows (h.1.stepped act).2 hread)⟩)
    (holds_init _ _) hrefused
  rw [hexact, not_and, not_not]
  exact ⟨fun hread _ => hread, fun hread => hread (newest_run .streaming acts)⟩

/-- A second chunk whose first write fails goes to a call that nobody reads. -/
theorem retried_audio_not_read :
    let acts : List Act := [.send { audioData := [1] }, .send { audioData := [2], first := { audioWritten := false } }]
    Along (step .streaming) Act.Refused {} acts ∧ ¬ (run .streaming acts).Read := by
  decide

/-- A chunk, `Dispose`, and a chunk on the next call. -/
theorem read_iff_opens_read_disposed :
    let acts : List Act := [.send { audioData := [1] }, .dispose true true, .send { audioData := [2] }]
    (run .streaming acts).Read ↔ Along (step .streaming) (fun s act => act.OpensRead .streaming s) {} acts :=
  read_iff_opens_read _ (by decide)

end solution_library.speechkit_stream
