import SolutionLibrary.Library.Overwriting
import SolutionLibrary.SpeechKitStream.Delivery
import SolutionLibrary.SpeechKitStream.SizeLimit

open solution_library.invariant solution_library.overwriting

namespace solution_library.speechkit_stream

/-- The most that `ReadAudioFile` reads at once. -/
def BUFFER_SIZE : ℕ := 32 * 1024

/-- A recognition result as the session uses it: its text as JSON, and whether
it is final. -/
structure SpeechRecognitionChunk where
  asJson : List UInt8
  Final : Bool
  deriving DecidableEq

/-- Where the main thread of a session is, from `ReadAudioFile` to the end of
`RunOptions`. -/
inductive Phase where
  | reading
  | audioSent
  | disposed
  /-- `notFinalBuf` has been found to hold a result. -/
  | flushing
  /-- `DoSttStreaming` has returned or raised. -/
  | leaving
  | closed
  deriving DecidableEq

/-- Where the thread that calls `SpeechToTextResponseReader_ChunksRecived` is. -/
inductive Handler where
  | waiting
  /-- `notFinalBuf` has been set. -/
  | received (chunk : SpeechRecognitionChunk)
  /-- A final result has been written. -/
  | written (chunk : SpeechRecognitionChunk)
  /-- A final result came too late for the file. -/
  | stopped (chunk : SpeechRecognitionChunk)
  deriving DecidableEq

def Handler.busy : Handler → Bool
  | .received _ | .written _ => true
  | .waiting | .stopped _ => false

/-- A session of the streaming client on a file: what is left of the file, the
client, and the results file with the position in it. -/
structure Session where
  inFile : List UInt8
  client : State := {}
  phase : Phase := .reading
  handler : Handler := .waiting
  outFile : List UInt8
  position : ℕ := 0
  notFinalBuf : Option (List UInt8) := none

/-- What the two threads of a session do, in any order. -/
inductive SessionAct where
  /-- The reader gets the next bytes of the file and sends them. -/
  | portion (byteRead : ℕ) (locked : Bool) (first retry : Attempt)
  | readFails
  | endOfFile
  | dispose (locked closed : Bool)
  | check
  | flush
  | close
  /-- A result comes from the reader of a call. -/
  | receive (call : ℕ) (chunk : SpeechRecognitionChunk)
  /-- The handler goes on with a result. -/
  | handle

/-- `RunOptions` opens the results file without cutting its contents off. -/
def Session.start (inFile outFile : List UInt8) : Session :=
  { inFile, outFile }

/-- `outFile.Write`. -/
def Session.write (s : Session) (bytes : List UInt8) : Session :=
  { s with outFile := writeAt s.outFile s.position bytes, position := s.position + bytes.length }

/-- The event that `ReadAudioFile` raises. -/
def Session.event (s : Session) (byteRead : ℕ) (locked : Bool) (first retry : Attempt) : AudioDataEvent :=
  { audioData := s.inFile.take byteRead, locked, first, retry }

def Session.step (s : Session) : SessionAct → Session
  | .portion byteRead locked first retry =>
    -- an exception of the listener ends the reading task and, through `Wait`, `DoSttStreaming`
    let (returned, client) := listenerSpeechKitSend .streaming s.client (s.event byteRead locked first retry)
    { s with inFile := s.inFile.drop byteRead, client, phase := if returned then .reading else .leaving }
  | .readFails => { s with phase := .leaving }
  | .endOfFile => { s with phase := .audioSent }
  | .dispose locked closed => { s with client := s.client.dispose .streaming locked closed, phase := .disposed }
  | .check => { s with phase := if s.notFinalBuf.getD [] = [] then .leaving else .flushing }
  -- `GetBytes` raises when the handler has cleared the buffer since it was checked
  | .flush => { s.write (s.notFinalBuf.getD []) with phase := .leaving }
  | .close => { s with phase := .closed }
  | .receive _ chunk => { s with notFinalBuf := some chunk.asJson, handler := .received chunk }
  | .handle =>
    match s.handler with
    | .received chunk =>
      if chunk.Final then
        if s.phase = .closed then { s with handler := .stopped chunk }
        else { s.write (s.notFinalBuf.getD []) with handler := .written chunk }
      else { s with handler := .waiting }
    | .written _ => { s with notFinalBuf := none, handler := .waiting }
    | .waiting | .stopped _ => s

/-- What each thread can do next. A read gives at least one byte before the end
of the file, and results come only from a call that is read. -/
def SessionAct.Enabled (s : Session) : SessionAct → Prop
  | .portion byteRead _ _ _ => s.phase = .reading ∧ 0 < byteRead ∧ byteRead ≤ BUFFER_SIZE ∧ byteRead ≤ s.inFile.length
  | .readFails => s.phase = .reading
  | .endOfFile => s.phase = .reading ∧ s.inFile = []
  | .dispose _ _ => s.phase = .audioSent
  | .check => s.phase = .disposed
  | .flush => s.phase = .flushing
  | .close => s.phase = .leaving
  | .receive call _ => s.handler = .waiting ∧ ∃ read ∈ s.client.calls[call]?, read.reading = true
  | .handle => s.handler.busy = true

instance SessionAct.decidableEnabled (s : Session) (act : SessionAct) : Decidable (act.Enabled s) :=
  match act with
  | .portion _ _ _ _ => inferInstanceAs (Decidable (_ ∧ _))
  | .endOfFile => inferInstanceAs (Decidable (_ ∧ _))
  | .receive _ _ => inferInstanceAs (Decidable (_ ∧ _))
  | .readFails | .dispose _ _ | .check | .flush | .close => inferInstanceAs (Decidable (_ = _))
  | .handle => inferInstanceAs (Decidable (_ = true))

/-- A failed call refuses the audio of a portion. -/
def SessionAct.Refused (s : Session) : SessionAct → Prop
  | .portion byteRead locked first retry => (s.event byteRead locked first retry).Refused s.client
  | _ => True

instance SessionAct.decidableRefused (s : Session) (act : SessionAct) : Decidable (act.Refused s) :=
  match act with
  | .portion _ _ _ _ => inferInstanceAs (Decidable (AudioDataEvent.Refused _ _))
  | .readFails | .endOfFile | .dispose _ _ | .check | .flush | .close | .receive _ _ | .handle => .isTrue trivial

/-- A run of a session. -/
def Session.Runs (s : Session) (acts : List SessionAct) : Prop :=
  Along Session.step (fun s act => act.Enabled s) s acts

instance Session.decidableRuns (s : Session) (acts : List SessionAct) : Decidable (s.Runs acts) :=
  inferInstanceAs (Decidable (Along Session.step (fun s act => act.Enabled s) s acts))

/-- No failed call takes audio in a run. -/
def Session.Refuses (s : Session) (acts : List SessionAct) : Prop :=
  Along Session.step (fun s act => act.Refused s) s acts

instance Session.decidableRefuses (s : Session) (acts : List SessionAct) : Decidable (s.Refuses acts) :=
  inferInstanceAs (Decidable (Along Session.step (fun s act => act.Refused s) s acts))

/-- The bytes that were read while another client had the mutex. -/
def SessionAct.unsent : SessionAct → ℕ
  | .portion byteRead locked _ _ => if locked then 0 else byteRead
  | _ => 0

/-- The audio that all calls of a client have got, in order. -/
def State.audio (s : State) : List UInt8 :=
  (s.calls.flatMap Call.audio).flatten

section handle

variable (s : Session)

/-- The handler changes the results file and the buffer only. -/
theorem Session.handle_eq : s.step .handle =
    { s with handler := (s.step .handle).handler, outFile := (s.step .handle).outFile,
             position := (s.step .handle).position, notFinalBuf := (s.step .handle).notFinalBuf } := by
  simp only [Session.step]
  repeat' split
  all_goals rfl

theorem Session.client_handle : (s.step .handle).client = s.client := by
  rw [s.handle_eq]

theorem Session.inFile_handle : (s.step .handle).inFile = s.inFile := by
  rw [s.handle_eq]

theorem Session.phase_handle : (s.step .handle).phase = s.phase := by
  rw [s.handle_eq]

end handle

section audio

variable {s : State} {e : AudioDataEvent}

theorem State.audio_of_calls {t : State} (hcalls : t.calls = s.calls) : t.audio = s.audio := by
  rw [State.audio, hcalls, State.audio]

/-- An invocation delivers its bytes when it gets the mutex and returns. -/
theorem State.Newest.audio_listener (h : s.Newest) (e : AudioDataEvent) :
    (listenerSpeechKitSend .streaming s e).2.audio =
      s.audio ++ if e.locked && (listenerSpeechKitSend .streaming s e).1 then e.audioData else [] := by
  cases hlocked : e.locked with
  | false => simp [listenerSpeechKitSend_of_not_locked hlocked]
  | true =>
    have hdelivers : Delivers e.audioData s.calls (listenerSpeechKitSend .streaming s e).2.calls _ :=
      h.delivers hlocked
    rw [State.audio, hdelivers.all, List.flatten_append, State.audio]
    cases (listenerSpeechKitSend .streaming s e).1 <;> simp

end audio

/-- What a session has done with a file after a run: what it sent and what is
left are a part of the file, and of a session that no exception has ended they
miss just the unsent bytes. -/
structure Session.Sent (inFile : List UInt8) (acts : List SessionAct) (s : Session) : Prop where
  sound : s.client.Sound
  sublist : (s.client.audio ++ s.inFile).Sublist inFile
  counted : s.phase = .reading ∨ .endOfFile ∈ acts →
    s.client.audio.length + s.inFile.length + (acts.map SessionAct.unsent).sum = inFile.length
  ended : .endOfFile ∈ acts → s.phase ≠ .reading ∧ s.inFile = []

section sent

variable {inFile : List UInt8} {before : List SessionAct} {s : Session}

/-- A step that leaves the calls and the file alone. -/
theorem Session.Sent.kept (h : s.Sent inFile before) {act : SessionAct} {t : Session}
    (hcalls : t.client.calls = s.client.calls) (hcall : t.client.call = none ∨ t.client.call = s.client.call)
    (hfile : t.inFile = s.inFile) (hphase : t.phase = .reading → s.phase = .reading) (hunsent : act.unsent = 0)
    (hact : act ≠ .endOfFile) : t.Sent inFile (before ++ [act]) := by
  have haudio : t.client.audio = s.client.audio := State.audio_of_calls hcalls
  have hmem : .endOfFile ∈ before ++ [act] → .endOfFile ∈ before := by
    intro hend
    obtain hend | hend := List.mem_append.mp hend
    · exact hend
    · exact absurd (List.mem_singleton.mp hend).symm hact
  refine ⟨State.Holds.dropped h.sound hcalls hcall, ?_, fun hgoing => ?_, fun hend => ?_⟩
  · rw [haudio, hfile]
    exact h.sublist
  · have hcounted := h.counted (hgoing.imp hphase hmem)
    simpa [haudio, hfile, hunsent] using hcounted
  · obtain ⟨hphase', hempty⟩ := h.ended (hmem hend)
    exact ⟨fun hreading => hphase' (hphase hreading), hfile.trans hempty⟩

theorem Session.Sent.portion (h : s.Sent inFile before) {byteRead : ℕ} {locked : Bool} {first retry : Attempt}
    (henabled : (SessionAct.portion byteRead locked first retry).Enabled s)
    (hrefused : (SessionAct.portion byteRead locked first retry).Refused s) :
    (s.step (.portion byteRead locked first retry)).Sent inFile
      (before ++ [.portion byteRead locked first retry]) := by
  obtain ⟨hreading, -, -, hle⟩ := henabled
  have hbefore : .endOfFile ∉ before := fun hend => (h.ended hend).1 hreading
  have hend : .endOfFile ∉ before ++ [.portion byteRead locked first retry] := by simpa using hbefore
  have hcounted := h.counted (.inl hreading)
  have haudio : (s.step (.portion byteRead locked first retry)).client.audio = _ :=
    h.sound.newest.audio_listener (s.event byteRead locked first retry)
  have hsound : (s.step (.portion byteRead locked first retry)).client.Sound := h.sound.listener hrefused
  refine ⟨hsound, ?_, fun hgoing => ?_, fun hmem => absurd hmem hend⟩
  · refine List.Sublist.trans ?_ h.sublist
    rw [haudio, List.append_assoc]
    apply List.Sublist.append_left
    split
    · simp [Session.event, Session.step]
    · exact List.drop_sublist ..
  · have hreturned : (listenerSpeechKitSend .streaming s.client (s.event byteRead locked first retry)).1 = true := by
      by_contra hraised
      simp [Session.step, hraised, hend] at hgoing
    have hlength : (s.inFile.take byteRead).length = byteRead := List.length_take_of_le hle
    have hdrop : (s.inFile.drop byteRead).length + byteRead = s.inFile.length := by
      rw [List.length_drop]
      omega
    have hfile : (s.step (.portion byteRead locked first retry)).inFile = s.inFile.drop byteRead := rfl
    rw [haudio, hfile, hreturned, List.length_append, List.map_append, List.sum_append]
    cases locked <;> simp [Session.event, SessionAct.unsent, hlength] <;> omega

theorem Session.Sent.stepped (h : s.Sent inFile before) {act : SessionAct} (henabled : act.Enabled s)
    (hrefused : act.Refused s) : (s.step act).Sent inFile (before ++ [act]) := by
  cases act with
  | portion byteRead locked first retry => exact h.portion henabled hrefused
  | readFails => exact h.kept rfl (.inr rfl) rfl (by rintro ⟨⟩) rfl (by simp)
  | endOfFile =>
    have hcounted := h.counted (.inl henabled.1)
    refine ⟨h.sound, h.sublist, fun _ => ?_, fun _ => ⟨by simp [Session.step], henabled.2⟩⟩
    simpa [SessionAct.unsent, Session.step] using hcounted
  | dispose locked closed =>
    obtain ⟨hcalls, hcall⟩ := dispose_calls .streaming s.client locked closed
    exact h.kept hcalls hcall rfl (by rintro ⟨⟩) rfl (by simp)
  | check =>
    refine h.kept rfl (.inr rfl) rfl (fun hphase => ?_) rfl (by simp)
    simp only [Session.step] at hphase
    split at hphase <;> cases hphase
  | flush => exact h.kept rfl (.inr rfl) rfl (by rintro ⟨⟩) rfl (by simp)
  | close => exact h.kept rfl (.inr rfl) rfl (by rintro ⟨⟩) rfl (by simp)
  | receive call chunk => exact h.kept rfl (.inr rfl) rfl id rfl (by simp)
  | handle =>
    exact h.kept (by rw [s.client_handle]) (.inr (by rw [s.client_handle])) s.inFile_handle
      (fun hreading => s.phase_handle ▸ hreading) rfl (by simp)

theorem sent_start (inFile outFile : List UInt8) : (Session.start inFile outFile).Sent inFile [] :=
  ⟨sound_init, List.Sublist.refl _, fun _ => by simp [Session.start, State.audio], fun hend => by simp at hend⟩

end sent

/-- The audio that the calls get is a part of the file, and a session that comes
to the end of the file has sent all of it exactly when it always got the mutex. -/
theorem file_delivered_iff (inFile outFile : List UInt8) (acts : List SessionAct)
    (hrun : (Session.start inFile outFile).Runs acts) (hrefused : (Session.start inFile outFile).Refuses acts) :
    let last := acts.foldl Session.step (.start inFile outFile)
    last.client.audio.Sublist inFile ∧
      (.endOfFile ∈ acts → (last.client.audio = inFile ↔ ∀ act ∈ acts, act.unsent = 0)) := by
  have hsent : (acts.foldl Session.step (.start inFile outFile)).Sent inFile acts :=
    (hrun.and hrefused).traces (sent_start inFile outFile) fun before s act h hact => h.stepped hact.1 hact.2
  have hpart := (List.sublist_append_left _ _).trans hsent.sublist
  refine ⟨hpart, fun hend => ?_⟩
  have hcounted := hsent.counted (.inr hend)
  rw [(hsent.ended hend).2, List.length_nil, Nat.add_zero] at hcounted
  have hzero : (acts.map SessionAct.unsent).sum = 0 ↔ ∀ act ∈ acts, act.unsent = 0 := by
    rw [List.sum_eq_zero_iff_forall_eq_nat]
    simp
  rw [← hzero]
  constructor
  · intro hall
    rw [hall] at hcounted
    omega
  · intro hnone
    exact hpart.eq_of_length (by omega)

/-- A file in two portions, the second one sent again. -/
theorem file_delivered_iff_resent :
    let acts : List SessionAct := [.portion 2 true {} {}, .portion 1 true { audioWritten := false } {}, .endOfFile]
    let last := acts.foldl Session.step (.start [1, 2, 3] [])
    last.client.audio.Sublist [1, 2, 3] ∧
      (.endOfFile ∈ acts → (last.client.audio = [1, 2, 3] ↔ ∀ act ∈ acts, act.unsent = 0)) :=
  file_delivered_iff [1, 2, 3] [] _ (by decide) (by decide)

end solution_library.speechkit_stream
