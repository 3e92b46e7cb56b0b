import Mathlib.Data.List.Infix
import SolutionLibrary.SpeechKitStream.FileSession

open solution_library.invariant

namespace solution_library.speechkit_stream

/-- The calls of a session with the one that has a reader, if any has: nothing
was delivered before it. -/
inductive ReadFirst : Option ℕ → List Call → Prop where
  | unread {calls : List Call} (hnone : ∀ call ∈ calls, call.delivered = [] ∧ call.reading = false) :
      ReadFirst none calls
  | read {older newer : List Call} {call : Call}
      (holder : ∀ other ∈ older, other.delivered = [] ∧ other.reading = false) (hreading : call.reading = true)
      (hnewer : ∀ other ∈ newer, other.reading = false) : ReadFirst (some older.length) (older ++ call :: newer)

section readFirst

variable {task : Option ℕ} {calls : List Call} {i : ℕ}

theorem ReadFirst.eq_of_reading (h : ReadFirst task calls) {call : Call} (hcall : calls[i]? = some call)
    (hreading : call.reading = true) : task = some i := by
  cases h with
  | unread hnone => simp [(hnone call (List.mem_of_getElem? hcall)).2] at hreading
  | @read older newer first holder hfirst hnewer =>
    obtain hlt | rfl | hgt := Nat.lt_trichotomy i older.length
    · rw [List.getElem?_append_left hlt] at hcall
      simp [(holder call (List.mem_of_getElem? hcall)).2] at hreading
    · rfl
    · obtain ⟨j, rfl⟩ := Nat.exists_eq_add_of_lt hgt
      rw [List.getElem?_append_right (by omega)] at hcall
      have hindex : older.length + j + 1 - older.length = j + 1 := by omega
      rw [hindex, List.getElem?_cons_succ] at hcall
      simp [hnewer call (List.mem_of_getElem? hcall)] at hreading

theorem audio_of_delivered {call : Call} (h : call.delivered = []) : call.audio = [] := by
  rw [Call.audio, h, List.filterMap_nil]

theorem flatMap_audio_eq_nil (h : ∀ call ∈ calls, call.delivered = [] ∧ call.reading = false) :
    calls.flatMap Call.audio = [] := by
  rw [List.flatMap_eq_nil_iff]
  exact fun call hcall => audio_of_delivered (h call hcall).1

/-- The audio of the call with a reader comes before that of all other calls. -/
theorem ReadFirst.comes_first (h : ReadFirst (some i) calls) : audioAt calls i <+: calls.flatMap Call.audio := by
  cases h with
  | read holder hreading hnewer =>
    rw [List.flatMap_append, flatMap_audio_eq_nil holder, List.nil_append, List.flatMap_cons]
    simp [audioAt]

/-- What changes the last call only keeps the order when its reader stays. -/
theorem ReadFirst.last (h : ReadFirst task calls) {older : List Call} {newest after : Call}
    (hcalls : calls = older ++ [newest]) (hreading : after.reading = newest.reading)
    (hdelivered : newest.delivered = [] → after.delivered = []) : ReadFirst task (older ++ [after]) := by
  cases h with
  | unread hnone =>
    rw [hcalls] at hnone
    obtain ⟨hnone, hnewest⟩ := List.forall_mem_append.mp hnone
    obtain ⟨hempty, hunread⟩ := hnewest newest List.mem_cons_self
    refine .unread (List.forall_mem_append.mpr ⟨hnone, List.forall_mem_singleton.mpr ?_⟩)
    exact ⟨hdelivered hempty, hreading.trans hunread⟩
  | @read first newer call holder hread hnewer =>
    obtain rfl | ⟨newer, last, rfl⟩ := List.eq_nil_or_concat' newer
    · obtain ⟨rfl, hlast⟩ := List.append_inj' hcalls rfl
      obtain rfl := List.singleton_inj.mp hlast
      exact .read holder (hreading.trans hread) (by simp)
    · rw [← List.cons_append, ← List.append_assoc] at hcalls
      obtain ⟨rfl, hlast⟩ := List.append_inj' hcalls rfl
      obtain rfl := List.singleton_inj.mp hlast
      obtain ⟨hnewer, hlast⟩ := List.forall_mem_append.mp hnewer
      rw [List.append_assoc, List.cons_append]
      refine .read holder hread (List.forall_mem_append.mpr ⟨hnewer, List.forall_mem_singleton.mpr ?_⟩)
      exact hreading.trans (hlast last List.mem_cons_self)

theorem ReadFirst.append_unread (h : ReadFirst task calls) {call : Call} (hreading : call.reading = false)
    (hdelivered : task = none → call.delivered = []) : ReadFirst task (calls ++ [call]) := by
  cases h with
  | unread hnone =>
    exact .unread (List.forall_mem_append.mpr ⟨hnone, List.forall_mem_singleton.mpr ⟨hdelivered rfl, hreading⟩⟩)
  | read holder hread hnewer =>
    rw [List.append_assoc, List.cons_append]
    exact .read holder hread (List.forall_mem_append.mpr ⟨hnewer, List.forall_mem_singleton.mpr hreading⟩)

theorem ReadFirst.append_read (h : ReadFirst none calls) {call : Call} (hreading : call.reading = true) :
    ReadFirst (some calls.length) (calls ++ [call]) := by
  cases h with
  | unread hnone => exact .read hnone hreading (by simp)

end readFirst

section attempts

variable {s : State} {audioData : List UInt8} {attempt : Attempt}

/-- The attempts of the streaming client keep the reader on the first call that
gets anything. -/
theorem Attempted.readFirst {result : Bool × State} (h : Attempted .streaming audioData attempt s result)
    (hfirst : ReadFirst s.readTask s.calls)
    (hready : ∀ call ∈ s.current, call.failed = true ∨ call.delivered ≠ [])
    (hrefused : ∀ call ∈ s.current, call.failed = true → attempt.audioWritten = false) :
    ReadFirst result.2.readTask result.2.calls ∧ ∀ i, s.readTask = some i → result.2.readTask = some i := by
  cases h with
  | uncreated => exact ⟨hfirst, fun i hi => hi⟩
  | reused older newest hcalls hcall =>
    refine ⟨?_, fun i hi => hi⟩
    have hcurrent := State.current_eq_some hcalls hcall
    have hreading : (newest.write (.audio audioData) attempt.audioWritten).reading = newest.reading := by
      cases attempt.audioWritten <;> rfl
    apply hfirst.last hcalls hreading
    intro hdelivered
    have hfailed := (hready newest hcurrent).resolve_right (not_not.mpr hdelivered)
    rwa [hrefused newest hcurrent hfailed]
  | opened hcall hcreates =>
    have hreads : s.reads .streaming = true ↔ s.readTask = none := by simp [State.reads]
    simp only [State.opened, Attempt.openedCall]
    cases htask : s.readTask with
    | none =>
      rw [htask] at hfirst
      rw [hreads.mpr htask]
      cases attempt.configWritten with
      | false => exact ⟨hfirst.append_unread rfl fun _ => rfl, by simp⟩
      | true =>
        refine ⟨hfirst.append_read ?_, by simp⟩
        cases attempt.audioWritten <;> rfl
    | some i =>
      rw [htask] at hfirst
      have hread : s.reads .streaming = false := by simp [State.reads, htask]
      rw [hread, if_neg (by simp)]
      refine ⟨hfirst.append_unread ?_ (by simp), fun j hj => hj⟩
      cases attempt.configWritten <;> cases attempt.audioWritten <;> rfl

theorem State.Sound.readFirst_listener (h : s.Sound) (hfirst : ReadFirst s.readTask s.calls) {e : AudioDataEvent}
    (hrefused : e.Refused s) :
    ReadFirst (listenerSpeechKitSend .streaming s e).2.readTask (listenerSpeechKitSend .streaming s e).2.calls ∧
      ∀ i, s.readTask = some i → (listenerSpeechKitSend .streaming s e).2.readTask = some i := by
  cases hlocked : e.locked with
  | false =>
    rw [listenerSpeechKitSend_of_not_locked hlocked]
    exact ⟨hfirst, fun i hi => hi⟩
  | true =>
    have hcount : (s.count e.audioData).Sound := State.Holds.dropped h rfl (s.call_count e.audioData)
    have hattempted : Attempted .streaming e.audioData e.first _ _ := hcount.newest.attempted
    obtain ⟨hkept, htask⟩ := hattempted.readFirst hfirst hcount.ready hrefused
    refine listenerSpeechKitSend_rule (fun _ after => ReadFirst after.readTask after.calls ∧
      ∀ i, s.readTask = some i → after.readTask = some i) hlocked (fun after hwritten => ?_) fun before hfailed => ?_
    · rw [hwritten] at hkept htask
      exact ⟨hkept, htask⟩
    · rw [hfailed] at hattempted hkept htask
      have hnone : State.current { before with call := none } = none := State.current_eq_none rfl
      have hdropped : ({ before with call := none } : State).Newest :=
        (hattempted.newest hcount.newest).dropped rfl (.inl rfl)
      have hretry : Attempted .streaming e.audioData e.retry _ _ := hdropped.attempted
      obtain ⟨hlast, hsame⟩ := hretry.readFirst hkept (by simp [hnone]) (by simp [hnone])
      exact ⟨hlast, fun i hi => hsame i (htask i hi)⟩

/-- No call gets far beyond the limit: the counter of the current one misses at
most the bytes that opened it. -/
structure State.Capped (s : State) : Prop where
  newest : s.Newest
  all : ∀ call ∈ s.calls, call.audioBytes < MAX_BYTES_SENT + BUFFER_SIZE
  current : ∀ call ∈ s.current, 0 ≤ s.bytesSent ∧ s.bytesSent < MAX_BYTES_SENT ∧
    (call.audioBytes : ℤ) ≤ s.bytesSent + BUFFER_SIZE

/-- The current call has room for bytes that have been counted already. -/
def State.HasRoom (s : State) (audioData : List UInt8) : Prop :=
  ∀ call ∈ s.current, 0 ≤ s.bytesSent ∧ s.bytesSent < MAX_BYTES_SENT ∧
    (call.audioBytes + audioData.length : ℤ) ≤ s.bytesSent + BUFFER_SIZE

theorem capped_init : ({} : State).Capped :=
  ⟨newest_init, by simp, by simp [State.current]⟩

theorem State.Capped.dropped (h : s.Capped) {t : State} (hcalls : t.calls = s.calls) (hcall : t.call = none) :
    t.Capped :=
  ⟨h.newest.dropped hcalls (.inl hcall), hcalls ▸ h.all, by simp [State.current_eq_none hcall]⟩

theorem State.Capped.of_last {older : List Call} {last : Call} (hcalls : s.calls = older ++ [last])
    (hcall : s.call = some older.length)
    (holder : ∀ call ∈ older, call.audioBytes < MAX_BYTES_SENT + BUFFER_SIZE) (hnonneg : 0 ≤ s.bytesSent)
    (hbelow : s.bytesSent < MAX_BYTES_SENT) (hlast : (last.audioBytes : ℤ) ≤ s.bytesSent + BUFFER_SIZE) :
    s.Capped := by
  refine ⟨fun call hcurrent => ?_, fun call hmem => ?_, fun call hcurrent => ?_⟩
  · rw [hcall] at hcurrent
    cases hcurrent
    simp [hcalls]
  · rw [hcalls, List.mem_append, List.mem_singleton] at hmem
    obtain hmem | rfl := hmem
    · exact holder call hmem
    · omega
  · rw [State.current_eq_some hcalls hcall] at hcurrent
    cases hcurrent
    exact ⟨hnonneg, hbelow, hlast⟩

theorem State.Capped.hasRoom_count (h : s.Capped) (hsize : audioData.length ≤ BUFFER_SIZE) :
    (s.count audioData).HasRoom audioData := by
  intro call hcurrent
  obtain ⟨i, hi, hcall⟩ := Option.bind_eq_some_iff.mp hcurrent
  obtain ⟨hlive, hlt⟩ := State.of_call_count hi
  obtain ⟨hnonneg, hbelow, hbytes⟩ := h.current call (by rw [State.current, hlive]; exact hcall)
  have hshort : audioData.length < MAX_BYTES_SENT := lt_of_le_of_lt hsize (by decide)
  rw [State.bytesSent_count ⟨hnonneg, hbelow⟩ hshort] at hlt ⊢
  omega

theorem Attempted.capped {client : Client} {result : Bool × State}
    (h : Attempted client audioData attempt s result) (hnewest : s.Newest)
    (hall : ∀ call ∈ s.calls, call.audioBytes < MAX_BYTES_SENT + BUFFER_SIZE) (hroom : s.HasRoom audioData)
    (hsize : audioData.length ≤ BUFFER_SIZE) : result.2.Capped := by
  cases h with
  | uncreated hcall => exact ⟨hnewest, hall, by simp [State.current_eq_none hcall]⟩
  | reused older newest hcalls hcall =>
    obtain ⟨hnonneg, hbelow, hbytes⟩ := hroom newest (State.current_eq_some hcalls hcall)
    refine .of_last rfl hcall (fun call hmem => hall call (by simp [hcalls, hmem])) hnonneg hbelow ?_
    rw [Call.audioBytes_write]
    split <;> push_cast <;> omega
  | opened =>
    refine .of_last rfl rfl hall (Int.le_refl 0) (Int.natCast_pos.mpr zero_lt_max) ?_
    rw [attempt.audioBytes_openedCall]
    simp only [State.opened]
    split <;> omega

theorem State.Capped.listener (h : s.Capped) {e : AudioDataEvent} (hsize : e.audioData.length ≤ BUFFER_SIZE) :
    (listenerSpeechKitSend .streaming s e).2.Capped := by
  cases hlocked : e.locked with
  | false =>
    rw [listenerSpeechKitSend_of_not_locked hlocked]
    exact h
  | true =>
    have hcount : (s.count e.audioData).Newest := h.newest.dropped rfl (s.call_count e.audioData)
    have hattempted : Attempted .streaming e.audioData e.first _ _ := hcount.attempted
    have hcapped := hattempted.capped hcount h.all (h.hasRoom_count hsize) hsize
    refine listenerSpeechKitSend_rule (fun _ after => after.Capped) hlocked (fun after hwritten => ?_)
      fun before hfailed => ?_
    · rwa [hwritten] at hcapped
    · rw [hfailed] at hcapped
      have hdropped : ({ before with call := none } : State).Capped := hcapped.dropped rfl rfl
      have hroom : ({ before with call := none } : State).HasRoom e.audioData := by
        simp [State.HasRoom, State.current_eq_none]
      have hretry : Attempted .streaming e.audioData e.retry _ _ := hdropped.newest.attempted
      exact hretry.capped hdropped.newest hdropped.all hroom hsize

theorem State.Capped.dispose (h : s.Capped) (locked closed : Bool) : (s.dispose .streaming locked closed).Capped := by
  cases locked with
  | false => exact h
  | true => exact h.dropped rfl rfl

theorem State.Capped.length_audioAt (h : s.Capped) (i : ℕ) :
    (audioAt s.calls i).flatten.length < MAX_BYTES_SENT + BUFFER_SIZE := by
  rw [audioAt]
  cases hcall : s.calls[i]? with
  | none => decide
  | some call =>
    have hbytes := h.all call (List.mem_of_getElem? hcall)
    rwa [Call.audioBytes, ← List.length_flatten] at hbytes

end attempts

/-- After a run of a session: its results come from the one call with a reader. -/
structure Session.Recognised (acts : List SessionAct) (s : Session) : Prop where
  sound : s.client.Sound
  capped : s.client.Capped
  first : ∃ task, ReadFirst task s.client.calls ∧ (s.phase = .reading → s.client.readTask = task) ∧
    ∀ call chunk, .receive call chunk ∈ acts → task = some call

section recognised

variable {before : List SessionAct} {s : Session}

theorem recognised_start (inFile outFile : List UInt8) : (Session.start inFile outFile).Recognised [] :=
  ⟨sound_init, capped_init, none, .unread (by simp [Session.start]), fun _ => rfl, by simp⟩

/-- A step that leaves the calls alone. -/
theorem Session.Recognised.kept (h : s.Recognised before) {act : SessionAct} {t : Session}
    (hclient : t.client = s.client) (hphase : t.phase = .reading → s.phase = .reading)
    (hact : ∀ call chunk, act ≠ .receive call chunk) : t.Recognised (before ++ [act]) := by
  obtain ⟨task, hfirst, htask, hreceived⟩ := h.first
  refine ⟨hclient ▸ h.sound, hclient ▸ h.capped, task, hclient ▸ hfirst, fun hreading => ?_,
    fun call chunk hmem => ?_⟩
  · rw [hclient]
    exact htask (hphase hreading)
  · obtain hmem | hmem := List.mem_append.mp hmem
    · exact hreceived call chunk hmem
    · exact absurd (List.mem_singleton.mp hmem).symm (hact call chunk)

theorem Session.Recognised.portion (h : s.Recognised before) {byteRead : ℕ} {locked : Bool} {first retry : Attempt}
    (henabled : (SessionAct.portion byteRead locked first retry).Enabled s)
    (hrefused : (SessionAct.portion byteRead locked first retry).Refused s) :
    (s.step (.portion byteRead locked first retry)).Recognised
      (before ++ [.portion byteRead locked first retry]) := by
  obtain ⟨hreading, -, hsize, -⟩ := henabled
  obtain ⟨task, hfirst, htask, hreceived⟩ := h.first
  rw [← htask hreading] at hfirst hreceived
  obtain ⟨hlast, hsame⟩ := h.sound.readFirst_listener hfirst hrefused
  have hlength : (s.event byteRead locked first retry).audioData.length ≤ BUFFER_SIZE :=
    (List.length_take_le byteRead s.inFile).trans hsize
  refine ⟨h.sound.listener hrefused, h.capped.listener hlength, _, hlast, fun _ => rfl, fun call chunk hmem => ?_⟩
  apply hsame
  apply hreceived call chunk
  simpa using hmem

theorem Session.Recognised.receive (h : s.Recognised before) {call : ℕ} {chunk : SpeechRecognitionChunk}
    (henabled : (SessionAct.receive call chunk).Enabled s) :
    (s.step (.receive call chunk)).Recognised (before ++ [.receive call chunk]) := by
  obtain ⟨task, hfirst, htask, hreceived⟩ := h.first
  obtain ⟨-, read, hread, hreading⟩ := henabled
  refine ⟨h.sound, h.capped, task, hfirst, htask, fun other chunk hmem => ?_⟩
  obtain hmem | hmem := List.mem_append.mp hmem
  · exact hreceived other chunk hmem
  · cases List.mem_singleton.mp hmem
    exact hfirst.eq_of_reading hread hreading

theorem Session.Recognised.stepped (h : s.Recognised before) {act : SessionAct} (henabled : act.Enabled s)
    (hrefused : act.Refused s) : (s.step act).Recognised (before ++ [act]) := by
  cases act with
  | portion byteRead locked first retry => exact h.portion henabled hrefused
  | dispose locked closed =>
    obtain ⟨hcalls, hcall⟩ := dispose_calls .streaming s.client locked closed
    obtain ⟨task, hfirst, -, hreceived⟩ := h.first
    refine ⟨State.Holds.dropped h.sound hcalls hcall, h.capped.dispose locked closed, task, hcalls ▸ hfirst,
      by rintro ⟨⟩, fun call chunk hmem => ?_⟩
    exact hreceived call chunk (by simpa using hmem)
  | receive call chunk => exact h.receive henabled
  | check =>
    refine h.kept rfl (fun hphase => ?_) (by simp)
    simp only [Session.step] at hphase
    split at hphase <;> cases hphase
  | handle => exact h.kept (s.client_handle) (fun hphase => s.phase_handle ▸ hphase) (by simp)
  | readFails | endOfFile | flush | close => exact h.kept rfl (by rintro ⟨⟩) (by simp)

end recognised

/-- All results of a session come from one call. It has the first bytes that
were sent, fewer than the limit and a buffer together: what was sent on other
calls is recognised by nobody. -/
theorem recognised_beginning (inFile outFile : List UInt8) (acts : List SessionAct)
    (hrun : (Session.start inFile outFile).Runs acts) (hrefused : (Session.start inFile outFile).Refuses acts) :
    let last := acts.foldl Session.step (.start inFile outFile)
    ∃ call, (∀ other chunk, .receive other chunk ∈ acts → other = call) ∧
      (audioAt last.client.calls call).flatten <+: last.client.audio ∧
        (audioAt last.client.calls call).flatten.length < MAX_BYTES_SENT + BUFFER_SIZE := by
  have hlast : (acts.foldl Session.step (.start inFile outFile)).Recognised acts :=
    (hrun.and hrefused).traces (recognised_start inFile outFile) fun before s act h hact => h.stepped hact.1 hact.2
  intro last
  obtain ⟨task, hfirst, -, hreceived⟩ := hlast.first
  cases task with
  | none =>
    refine ⟨last.client.calls.length, fun other chunk hmem => absurd (hreceived other chunk hmem) (by simp), ?_⟩
    rw [audioAt_length]
    exact ⟨List.nil_prefix, by decide⟩
  | some call =>
    refine ⟨call, fun other chunk hmem => (Option.some_inj.mp (hreceived other chunk hmem)).symm, ?_, ?_⟩
    · exact List.IsPrefix.flatten hfirst.comes_first
    · exact hlast.capped.length_audioAt call

/-- A result for the first portion, and a portion sent again on another call. -/
theorem recognised_beginning_resent :
    let acts : List SessionAct := [.portion 2 true {} {}, .receive 0 { asJson := [7], Final := true },
      .portion 1 true { audioWritten := false } {}]
    let last := acts.foldl Session.step (.start [1, 2, 3] [])
    ∃ call, (∀ other chunk, .receive other chunk ∈ acts → other = call) ∧
      (audioAt last.client.calls call).flatten <+: last.client.audio ∧
        (audioAt last.client.calls call).flatten.length < MAX_BYTES_SENT + BUFFER_SIZE :=
  recognised_beginning [1, 2, 3] [] _ (by decide) (by decide)

end solution_library.speechkit_stream
