import SolutionLibrary.Library.Invariant
import SolutionLibrary.SpeechKitStream.Client

open solution_library.invariant

namespace solution_library.speechkit_stream

/-- A call on which a write has failed accepts no later write. -/
def AudioDataEvent.Refused (s : State) (e : AudioDataEvent) : Prop :=
  ∀ call ∈ (s.count e.audioData).current, call.failed = true → e.first.audioWritten = false

instance (s : State) (e : AudioDataEvent) : Decidable (e.Refused s) :=
  inferInstanceAs (Decidable (∀ call ∈ (s.count e.audioData).current, call.failed = true →
    e.first.audioWritten = false))

/-- What is assumed of an invocation of the listener: it gets the mutex, and a
failed call refuses every later write. -/
def Act.Served (s : State) : Act → Prop
  | .send e => e.locked = true ∧ e.Refused s
  | .dispose _ _ => True

instance (s : State) (act : Act) : Decidable (act.Served s) :=
  match act with
  | .send e => inferInstanceAs (Decidable (e.locked = true ∧ e.Refused s))
  | .dispose _ _ => .isTrue trivial

/-- The audio delivered on the call at a position. -/
def audioAt (calls : List Call) (i : ℕ) : List (List UInt8) :=
  (calls[i]?).elim [] Call.audio

/-- The chunk is delivered on one call, behind the audio that it has, and on no
other. -/
def DeliveredOnce (audioData : List UInt8) (before after : List Call) : Prop :=
  ∃ i, audioAt after i = audioAt before i ++ [audioData] ∧ ∀ j, j ≠ i → audioAt after j = audioAt before j

/-- An invocation of the listener raises and delivers no audio, or delivers its
chunk on exactly one call. -/
def Act.DeliversOnce (client : Client) (s : State) : Act → Prop
  | .send e =>
    match listenerSpeechKitSend client s e with
    | (true, after) => DeliveredOnce e.audioData s.calls after.calls
    | (false, after) => ∀ i, audioAt after.calls i = audioAt s.calls i
  | .dispose locked closed => (s.dispose client locked closed).calls = s.calls

/-- The chunks of a run whose invocation returned normally, in order. -/
def accepted (client : Client) (s : State) : List Act → List (List UInt8)
  | [] => []
  | .send e :: acts =>
    let (returned, after) := listenerSpeechKitSend client s e
    (if returned then [e.audioData] else []) ++ accepted client after acts
  | .dispose locked closed :: acts => accepted client (s.dispose client locked closed) acts

/-- The first message on a call is the configuration and all others are audio. -/
def Call.Configured (call : Call) : Prop :=
  call.delivered = [] ∨ ∃ audios : List (List UInt8), call.delivered = .config :: audios.map .audio

section audio

variable {call : Call} {older : List Call}

@[simp]
theorem Call.write_false (call : Call) (request : Request) :
    call.write request false = { call with failed := true } :=
  rfl

@[simp]
theorem Call.write_true (call : Call) (request : Request) :
    call.write request true = { call with delivered := call.delivered ++ [request] } :=
  rfl

theorem Call.audio_write (call : Call) (audioData : List UInt8) (written : Bool) :
    (call.write (.audio audioData) written).audio = call.audio ++ if written then [audioData] else [] := by
  cases written <;> simp [Call.audio, Request.audioData]

theorem Call.Configured.write (h : call.Configured) (hdelivered : call.delivered ≠ []) (audioData : List UInt8)
    (written : Bool) : (call.write (.audio audioData) written).Configured := by
  obtain ⟨audios, haudios⟩ := h.resolve_left hdelivered
  cases written with
  | false => exact .inr ⟨audios, haudios⟩
  | true => exact .inr ⟨audios ++ [audioData], by simp [haudios]⟩

theorem Attempt.audio_openedCall (attempt : Attempt) (reads : Bool) (audioData : List UInt8) :
    (attempt.openedCall reads audioData).audio =
      if attempt.configWritten && attempt.audioWritten then [audioData] else [] := by
  unfold Attempt.openedCall
  cases attempt.configWritten with
  | false => rfl
  | true => cases attempt.audioWritten <;> rfl

theorem Attempt.configured_openedCall (attempt : Attempt) (reads : Bool) (audioData : List UInt8) :
    (attempt.openedCall reads audioData).Configured := by
  unfold Attempt.openedCall
  split
  · exact .write (.inr ⟨[], rfl⟩) (by simp) audioData _
  · exact .inl rfl

theorem Attempt.ready_openedCall (attempt : Attempt) (reads : Bool) (audioData : List UInt8) :
    (attempt.openedCall reads audioData).failed = true ∨ (attempt.openedCall reads audioData).delivered ≠ [] := by
  unfold Attempt.openedCall
  cases attempt.configWritten with
  | false => exact .inl rfl
  | true => cases attempt.audioWritten <;> simp

theorem audioAt_append_singleton (older : List Call) (call : Call) (i : ℕ) :
    audioAt (older ++ [call]) i = if i = older.length then call.audio else audioAt older i := by
  by_cases hlt : i < older.length
  · rw [audioAt, List.getElem?_append_left hlt, if_neg (Nat.ne_of_lt hlt)]
    rfl
  by_cases heq : i = older.length
  · simp [audioAt, heq]
  · have hlen : (older ++ [call]).length ≤ i := by
      simp only [List.length_append, List.length_singleton]
      omega
    rw [audioAt, List.getElem?_eq_none hlen, if_neg heq, audioAt, List.getElem?_eq_none (not_lt.mp hlt)]

theorem audioAt_length (calls : List Call) : audioAt calls calls.length = [] := by
  simp [audioAt]

end audio

section delivers

variable {client : Client} {s t : State} {audioData : List UInt8} {attempt : Attempt}

/-- What an attempt does to the audio: with its chunk delivered, or without. -/
structure Delivers (audioData : List UInt8) (before after : List Call) (written : Bool) : Prop where
  all : after.flatMap Call.audio = before.flatMap Call.audio ++ if written then [audioData] else []
  once : written = true → DeliveredOnce audioData before after
  unchanged : written = false → ∀ i, audioAt after i = audioAt before i

theorem Delivers.refl (audioData : List UInt8) (calls : List Call) : Delivers audioData calls calls false :=
  ⟨by simp, by simp, fun _ _ => rfl⟩

theorem Delivers.trans {before between after : List Call} {written : Bool}
    (h : Delivers audioData before between false) (hrest : Delivers audioData between after written) :
    Delivers audioData before after written := by
  refine ⟨?_, ?_, ?_⟩
  · rw [hrest.all, h.all]
    simp
  · intro hwritten
    obtain ⟨i, hi, hother⟩ := hrest.once hwritten
    exact ⟨i, by rw [hi, h.unchanged rfl], fun j hj => by rw [hother j hj, h.unchanged rfl]⟩
  · intro hwritten i
    rw [hrest.unchanged hwritten, h.unchanged rfl]

/-- The last call gets the chunk or not, and the calls before it stay. -/
theorem Delivers.of_last {before older : List Call} {call : Call} (audio : List (List UInt8)) {written : Bool}
    (hall : before.flatMap Call.audio = older.flatMap Call.audio ++ audio)
    (hat : ∀ i, audioAt before i = if i = older.length then audio else audioAt older i)
    (hcall : call.audio = audio ++ if written then [audioData] else []) :
    Delivers audioData before (older ++ [call]) written := by
  refine ⟨?_, ?_, ?_⟩
  · simp [hall, hcall]
  · rintro rfl
    refine ⟨older.length, ?_, fun j hj => ?_⟩
    · rw [audioAt_append_singleton, hat, if_pos rfl, if_pos rfl, hcall, if_pos rfl]
    · rw [audioAt_append_singleton, hat, if_neg hj, if_neg hj]
  · rintro rfl i
    rw [audioAt_append_singleton, hat, hcall]
    simp

theorem Attempted.delivers {result : Bool × State} (h : Attempted client audioData attempt s result) :
    Delivers audioData s.calls result.2.calls result.1 := by
  cases h with
  | reused older newest hcalls =>
    rw [hcalls]
    exact .of_last newest.audio (by simp) (audioAt_append_singleton older newest) (newest.audio_write audioData _)
  | opened =>
    refine .of_last [] (by simp) (fun i => ?_) (attempt.audio_openedCall _ audioData)
    split
    · next hi => rw [hi, audioAt_length]
    · rfl
  | uncreated => exact .refl audioData s.calls

/-- Every call is configured, and the current one either refuses writes or has
got its configuration. -/
def State.Sound : State → Prop :=
  State.Holds Call.Configured fun call => call.failed = true ∨ call.delivered ≠ []

theorem State.Sound.listener (h : s.Sound) {e : AudioDataEvent} (hrefused : e.Refused s) :
    (listenerSpeechKitSend client s e).2.Sound := by
  refine State.Holds.listener h (fun call hcurrent hconfigured hready => ?_) (fun _ _ _ => ?_) fun _ _ _ _ => ?_
  · obtain hfailed | hdelivered := hready
    · rw [hrefused call hcurrent hfailed]
      exact ⟨hconfigured, .inl rfl⟩
    · refine ⟨hconfigured.write hdelivered e.audioData _, .inr ?_⟩
      cases e.first.audioWritten <;> simp [hdelivered]
  · exact ⟨e.first.configured_openedCall _ e.audioData, e.first.ready_openedCall _ e.audioData⟩
  · exact ⟨e.retry.configured_openedCall _ e.audioData, e.retry.ready_openedCall _ e.audioData⟩

/-- An invocation that gets the mutex delivers its chunk once if it returns
normally. -/
theorem State.Newest.delivers (h : s.Newest) {e : AudioDataEvent} (hlocked : e.locked = true) :
    Delivers e.audioData s.calls (listenerSpeechKitSend client s e).2.calls (listenerSpeechKitSend client s e).1 := by
  have hcount : (s.count e.audioData).Newest := h.dropped rfl (s.call_count e.audioData)
  have hfirst : Attempted client e.audioData e.first _ _ := hcount.attempted
  refine listenerSpeechKitSend_rule (fun written after => Delivers e.audioData s.calls after.calls written) hlocked
    (fun after hwritten => ?_) fun before hfailed => ?_
  · rw [hwritten] at hfirst
    exact hfirst.delivers
  · rw [hfailed] at hfirst
    have hdropped : ({ before with call := none } : State).Newest := (hfirst.newest hcount).dropped rfl (.inl rfl)
    have hretry : Attempted client e.audioData e.retry _ _ := hdropped.attempted
    exact hfirst.delivers.trans hretry.delivers

theorem State.Sound.stepped (h : s.Sound) {act : Act} (hserved : act.Served s) : (step client s act).Sound := by
  cases act with
  | send e => exact h.listener hserved.2
  | dispose locked closed =>
    exact State.Holds.dropped h (dispose_calls client s locked closed).1 (dispose_calls client s locked closed).2

theorem State.Sound.deliversOnce (h : s.Sound) {act : Act} (hserved : act.Served s) :
    act.DeliversOnce client s := by
  cases act with
  | send e =>
    have hdelivers : Delivers e.audioData s.calls (listenerSpeechKitSend client s e).2.calls _ :=
      h.newest.delivers hserved.1
    simp only [Act.DeliversOnce]
    split
    · next after hresult =>
      rw [hresult] at hdelivers
      exact hdelivers.once rfl
    · next after hresult =>
      rw [hresult] at hdelivers
      exact hdelivers.unchanged rfl
  | dispose locked closed => exact (dispose_calls client s locked closed).1

theorem State.Sound.flatMap_audio (h : s.Sound) {acts : List Act} (hserved : Along (step client) Act.Served s acts) :
    (acts.foldl (step client) s).calls.flatMap Call.audio = s.calls.flatMap Call.audio ++ accepted client s acts := by
  induction acts generalizing s with
  | nil => simp [accepted]
  | cons act acts ih =>
    rw [List.foldl_cons, ih (h.stepped hserved.1) hserved.2]
    cases act with
    | send e =>
      have hdelivers : Delivers e.audioData s.calls (listenerSpeechKitSend client s e).2.calls _ :=
        h.newest.delivers hserved.1.1
      rw [step, hdelivers.all, accepted, List.append_assoc]
    | dispose locked closed => rw [step, (dispose_calls client s locked closed).1, accepted]

end delivers

theorem sound_init : ({} : State).Sound :=
  holds_init _ _

/-- For a producer that always gets the mutex, an invocation raises or delivers
its chunk on exactly one call, every call starts with its configuration and goes
on with audio, and the calls together have got the accepted chunks in order. -/
theorem audio_delivered_exactly_once (client : Client) (acts : List Act)
    (hserved : Along (step client) Act.Served {} acts) :
    Along (step client) (fun s act => act.DeliversOnce client s) {} acts ∧
      (∀ call ∈ (run client acts).calls, call.Configured) ∧
        (run client acts).calls.flatMap Call.audio = accepted client {} acts := by
  obtain ⟨hsound, hbefore⟩ := hserved.keeps (fun _ _ h hserved => h.stepped hserved) sound_init
  refine ⟨hbefore.mono fun s act h => h.1.deliversOnce h.2, hsound.all, ?_⟩
  exact sound_init.flatMap_audio hserved

/-- A chunk, a chunk whose first write fails, and a chunk on the call opened for
the retry. -/
theorem retried_audio_delivered_exactly_once :
    let acts : List Act := [.send { audioData := [1] }, .send { audioData := [2], first := { audioWritten := false } },
      .send { audioData := [3] }]
    Along (step .streaming) (fun s act => act.DeliversOnce .streaming s) {} acts ∧
      (∀ call ∈ (run .streaming acts).calls, call.Configured) ∧
        (run .streaming acts).calls.map Call.audio = [[[1]], [[2], [3]]] ∧
          (run .streaming acts).calls.flatMap Call.audio = accepted .streaming {} acts := by
  intro acts
  obtain ⟨honce, hconfigured, hall⟩ := audio_delivered_exactly_once .streaming acts (by decide)
  exact ⟨honce, hconfigured, by decide, hall⟩

end solution_library.speechkit_stream
