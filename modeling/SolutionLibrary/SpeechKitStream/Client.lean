import Mathlib.Data.List.Basic
import Mathlib.Algebra.Order.Ring.Int

namespace solution_library.speechkit_stream

/-- The streaming clients of `yc-speechkit-streaming-asr` and of
`yc-speechkit-hybrid`. -/
inductive Client where
  | streaming
  | hybrid
  deriving DecidableEq

def MAX_BYTES_SENT : ℕ := 10 * 1024 * 1024

/-- A message of a request stream. -/
inductive Request where
  | config
  | audio (audioData : List UInt8)
  deriving DecidableEq

/-- A gRPC call: what has been delivered on it, whether a write on it has
failed, and whether `ReadResponseStream` was started on it. -/
structure Call where
  delivered : List Request := []
  failed : Bool := false
  reading : Bool := false
  deriving DecidableEq

/-- The fields of a client, with the calls it has opened, the oldest first.
`call` and `readTask` hold positions in `calls`. -/
structure State where
  calls : List Call := []
  call : Option ℕ := none
  readTask : Option ℕ := none
  bytesSent : ℤ := 0
  deriving DecidableEq

/-- What one `WriteAudio` meets: how often creating a call first ends in
`DeadlineExceeded`, whether it then gives a call, and whether the writes of the
configuration and of the audio succeed. -/
structure Attempt where
  deadlineExceeded : ℕ := 0
  created : Bool := true
  configWritten : Bool := true
  audioWritten : Bool := true

/-- One event of the audio source: its data, whether the mutex is obtained
within five seconds, and what the write and its retry meet. -/
structure AudioDataEvent where
  audioData : List UInt8
  locked : Bool := true
  first : Attempt := {}
  retry : Attempt := {}

/-- `RequestStream.WriteAsync(request).Wait()`. -/
def Call.write (call : Call) (request : Request) (written : Bool) : Call :=
  if written then { call with delivered := call.delivered ++ [request] } else { call with failed := true }

def State.write (s : State) (call : ℕ) (request : Request) (written : Bool) : State :=
  { s with calls := s.calls.modify call (·.write request written) }

/-- `ReadResponseStream` is started on a call: by the streaming client only
while it has no reading task, by the hybrid client always. -/
def State.startReading (client : Client) (s : State) (call : ℕ) : State :=
  if client = .streaming ∧ s.readTask ≠ none then s
  else { s with readTask := some call, calls := s.calls.modify call ({ · with reading := true }) }

/-- The current call, or a new one. An exception is `none`, and leaves the
fields as they are at that point. -/
def activeCall (client : Client) (attempt : Attempt) (deadlineExceeded : ℕ) (s : State) : Option ℕ × State :=
  match s.call with
  | some call => (some call, s)
  | none =>
    match client, deadlineExceeded with
    -- only the streaming client catches `DeadlineExceeded` and starts over
    | .streaming, n + 1 => activeCall client attempt n s
    | .hybrid, _ + 1 => (none, s)
    | _, 0 =>
      if attempt.created then
        let call := s.calls.length
        let s := { s with calls := s.calls ++ [({} : Call)], call := some call, bytesSent := 0 }
        let s := s.write call .config attempt.configWritten
        if attempt.configWritten then (some call, s.startReading client call) else (none, s)
      else (none, s)

/-- Whether the audio was written; an exception is `false`. -/
def writeAudio (client : Client) (s : State) (audioData : List UInt8) (attempt : Attempt) : Bool × State :=
  match activeCall client attempt attempt.deadlineExceeded s with
  | (some call, s) => (attempt.audioWritten, s.write call (.audio audioData) attempt.audioWritten)
  | (none, s) => (false, s)

/-- The chunk is added to the counter, a C# `int`, and the call is dropped at
the limit. -/
def State.count (s : State) (audioData : List UInt8) : State :=
  let bytesSent := (s.bytesSent + audioData.length).bmod (2 ^ 32)
  { s with bytesSent, call := if MAX_BYTES_SENT ≤ bytesSent then none else s.call }

/-- Whether the listener returned normally. The hybrid client counts a chunk
before it waits for the mutex; a chunk that does not get it is dropped. -/
def listenerSpeechKitSend (client : Client) (s : State) (e : AudioDataEvent) : Bool × State :=
  let s := if client = .hybrid ∨ e.locked then s.count e.audioData else s
  if e.locked then
    match writeAudio client s e.audioData e.first with
    | (true, s) => (true, s)
    | (false, s) => writeAudio client { s with call := none } e.audioData e.retry
  else (true, s)

/-- The streaming client tries again until nothing raises, the hybrid client
keeps its call when shutting it down raises. -/
def State.dispose (client : Client) (s : State) (locked closed : Bool) : State :=
  match client with
  | .streaming => if locked then { s with call := none, readTask := none } else s
  | .hybrid => if locked && closed then { s with call := none } else s

inductive Act where
  | send (e : AudioDataEvent)
  | dispose (locked closed : Bool)

def step (client : Client) (s : State) : Act → State
  | .send e => (listenerSpeechKitSend client s e).2
  | .dispose locked closed => s.dispose client locked closed

/-- The client after a run, from its construction on. -/
def run (client : Client) (acts : List Act) : State :=
  acts.foldl (step client) {}

def Request.audioData : Request → Option (List UInt8)
  | .config => none
  | .audio audioData => some audioData

/-- The chunks of audio delivered on a call. -/
def Call.audio (call : Call) : List (List UInt8) :=
  call.delivered.filterMap Request.audioData

def Call.audioBytes (call : Call) : ℕ :=
  (call.audio.map List.length).sum

section attempt

variable {client : Client} {s : State} {audioData : List UInt8} {attempt : Attempt}

/-- Creating a call succeeds. -/
def Attempt.Creates (client : Client) (attempt : Attempt) : Prop :=
  attempt.created ∧ (client = .hybrid → attempt.deadlineExceeded = 0)

instance : Decidable (attempt.Creates client) := inferInstanceAs (Decidable (_ ∧ _))

/-- A call that gets its configuration now is read. -/
def State.reads (client : Client) (s : State) : Bool :=
  client = .hybrid ∨ s.readTask = none

/-- The call that an attempt opens, after the attempt. -/
def Attempt.openedCall (attempt : Attempt) (reads : Bool) (audioData : List UInt8) : Call :=
  if attempt.configWritten then
    ({ delivered := [.config], reading := reads } : Call).write (.audio audioData) attempt.audioWritten
  else { failed := true }

/-- The client with a call that an attempt has opened. -/
def State.opened (client : Client) (s : State) (audioData : List UInt8) (attempt : Attempt) : State where
  calls := s.calls ++ [attempt.openedCall (s.reads client) audioData]
  call := some s.calls.length
  readTask := if attempt.configWritten ∧ s.reads client then some s.calls.length else s.readTask
  bytesSent := 0

theorem writeAudio_of_some {call : ℕ} (h : s.call = some call) : writeAudio client s audioData attempt =
    (attempt.audioWritten, s.write call (.audio audioData) attempt.audioWritten) := by
  unfold writeAudio activeCall
  simp [h]

theorem activeCall_streaming (h : s.call = none) (deadlineExceeded : ℕ) :
    activeCall .streaming attempt deadlineExceeded s = activeCall .streaming attempt 0 s := by
  induction deadlineExceeded with
  | zero => rfl
  | succ n ih =>
    rw [← ih]
    conv_lhs => rw [activeCall.eq_def, h]

theorem activeCall_hybrid (h : s.call = none) {deadlineExceeded : ℕ} (hraised : deadlineExceeded ≠ 0) :
    activeCall .hybrid attempt deadlineExceeded s = (none, s) := by
  obtain ⟨n, rfl⟩ := Nat.exists_eq_succ_of_ne_zero hraised
  rw [activeCall.eq_def, h]

theorem modify_length_append (calls : List Call) (call : Call) (f : Call → Call) :
    (calls ++ [call]).modify calls.length f = calls ++ [f call] := by
  induction calls with
  | nil => rfl
  | cons first calls ih => simpa using ih

theorem startReading_eq (call : ℕ) : s.startReading client call =
    if s.reads client then
      { s with readTask := some call, calls := s.calls.modify call ({ · with reading := true }) }
    else s := by
  cases client <;> simp [State.startReading, State.reads, ite_not]

/-- Without a current call an attempt opens one and writes to it, or fails to
create one and changes nothing. -/
theorem writeAudio_of_none (h : s.call = none) : writeAudio client s audioData attempt =
    if attempt.Creates client then
      (attempt.configWritten && attempt.audioWritten, s.opened client audioData attempt)
    else (false, s) := by
  by_cases hraised : client = .hybrid ∧ attempt.deadlineExceeded ≠ 0
  · have hcreates : ¬ attempt.Creates client := fun hcreates => hraised.2 (hcreates.2 hraised.1)
    rw [if_neg hcreates, writeAudio, hraised.1, activeCall_hybrid h hraised.2]
  have hcreates : attempt.Creates client ↔ attempt.created = true := by
    unfold Attempt.Creates
    tauto
  have hactive : activeCall client attempt attempt.deadlineExceeded s = activeCall client attempt 0 s := by
    cases client with
    | streaming => exact activeCall_streaming h _
    | hybrid => rw [not_and_not_right.mp hraised rfl]
  rw [writeAudio, hactive, activeCall]
  simp only [h, hcreates]
  cases attempt.created with
  | false => rfl
  | true =>
    simp only [↓reduceIte, State.write, modify_length_append, startReading_eq, State.reads]
    cases hconfig : attempt.configWritten with
    | false => simp [State.opened, Attempt.openedCall, Call.write, hconfig]
    | true =>
      cases hreads : s.reads client <;>
      simp_all [State.opened, Attempt.openedCall, Call.write, State.reads, modify_length_append]

/-- The current call is the one opened last. -/
def State.Newest (s : State) : Prop :=
  ∀ call, s.call = some call → call + 1 = s.calls.length

/-- What an attempt may do: it writes to the current call, opens a call, or
changes nothing. -/
inductive Attempted (client : Client) (audioData : List UInt8) (attempt : Attempt) (s : State) :
    Bool × State → Prop where
  | reused (older : List Call) (newest : Call) (hcalls : s.calls = older ++ [newest])
      (hcall : s.call = some older.length) :
      Attempted client audioData attempt s (attempt.audioWritten,
        { s with calls := older ++ [newest.write (.audio audioData) attempt.audioWritten] })
  | opened (hcall : s.call = none) (hcreates : attempt.Creates client) :
      Attempted client audioData attempt s (attempt.configWritten && attempt.audioWritten,
        s.opened client audioData attempt)
  | uncreated (hcall : s.call = none) (hcreates : ¬ attempt.Creates client) :
      Attempted client audioData attempt s (false, s)

theorem State.Newest.exists_last (h : s.Newest) {call : ℕ} (hcall : s.call = some call) :
    ∃ older newest, s.calls = older ++ [newest] ∧ call = older.length := by
  have hlength := h call hcall
  obtain hnil | ⟨older, newest, hcalls⟩ := List.eq_nil_or_concat' s.calls
  · simp [hnil] at hlength
  · rw [hcalls, List.length_append, List.length_singleton] at hlength
    exact ⟨older, newest, hcalls, Nat.add_right_cancel hlength⟩

theorem State.write_last {older : List Call} {newest : Call} (hcalls : s.calls = older ++ [newest])
    (request : Request) (written : Bool) :
    s.write older.length request written = { s with calls := older ++ [newest.write request written] } := by
  rw [State.write, hcalls, modify_length_append]

theorem State.Newest.attempted (h : s.Newest) :
    Attempted client audioData attempt s (writeAudio client s audioData attempt) := by
  cases hcall : s.call with
  | none =>
    rw [writeAudio_of_none hcall]
    split
    · next hcreates => exact .opened hcall hcreates
    · next hcreates => exact .uncreated hcall hcreates
  | some call =>
    obtain ⟨older, newest, hcalls, rfl⟩ := h.exists_last hcall
    rw [writeAudio_of_some hcall, State.write_last hcalls]
    exact .reused older newest hcalls hcall

theorem Attempted.newest {result : Bool × State} (h : Attempted client audioData attempt s result)
    (hnewest : s.Newest) : result.2.Newest := by
  cases h with
  | reused older newest hcalls hcall =>
    intro call hcurrent
    simpa [hcalls] using hnewest call hcurrent
  | opened =>
    intro call hcurrent
    cases hcurrent
    simp [State.opened]
  | uncreated => exact hnewest

theorem State.Newest.dropped {t : State} (h : s.Newest) (hcalls : t.calls = s.calls)
    (hcall : t.call = none ∨ t.call = s.call) : t.Newest := by
  intro call hcurrent
  rw [hcalls]
  obtain hnone | hsame := hcall
  · simp [hnone] at hcurrent
  · exact h call (hsame ▸ hcurrent)

theorem State.call_count (s : State) (audioData : List UInt8) :
    (s.count audioData).call = none ∨ (s.count audioData).call = s.call := by
  simp only [State.count]
  split
  · exact .inl rfl
  · exact .inr rfl

/-- The rule for an invocation with the mutex: its first attempt succeeds, or
fails and the retry decides. -/
theorem listenerSpeechKitSend_rule {e : AudioDataEvent} (property : Bool → State → Prop) (hlocked : e.locked = true)
    (hfirst : ∀ after, writeAudio client (s.count e.audioData) e.audioData e.first = (true, after) →
      property true after)
    (hretry : ∀ before, writeAudio client (s.count e.audioData) e.audioData e.first = (false, before) →
      property (writeAudio client { before with call := none } e.audioData e.retry).1
        (writeAudio client { before with call := none } e.audioData e.retry).2) :
    property (listenerSpeechKitSend client s e).1 (listenerSpeechKitSend client s e).2 := by
  simp only [listenerSpeechKitSend, hlocked, or_true, ↓reduceIte]
  split
  · next after hwritten => exact hfirst after hwritten
  · next before hfailed => exact hretry before hfailed

/-- A chunk that does not get the mutex is dropped. -/
theorem listenerSpeechKitSend_of_not_locked {e : AudioDataEvent} (hlocked : e.locked = false) :
    listenerSpeechKitSend client s e = (true, if client = .hybrid then s.count e.audioData else s) := by
  simp [listenerSpeechKitSend, hlocked]

theorem dispose_calls (client : Client) (s : State) (locked closed : Bool) :
    (s.dispose client locked closed).calls = s.calls ∧
    ((s.dispose client locked closed).call = none ∨ (s.dispose client locked closed).call = s.call) := by
  cases client with
  | streaming => cases locked <;> simp [State.dispose]
  | hybrid => cases locked <;> cases closed <;> simp [State.dispose]

end attempt

theorem newest_init : ({} : State).Newest := by
  intro call hcall
  cases hcall

section grows

variable {client : Client} {s : State}

/-- What later steps leave of a call: messages are only added, and the reader is
started when the call is opened or never. -/
structure Call.Extends (before after : Call) : Prop where
  delivered : before.delivered <+: after.delivered
  reading : after.reading = before.reading

def Grows (before after : List Call) : Prop :=
  ∀ call ∈ before, ∃ last ∈ after, call.Extends last

theorem Grows.refl (calls : List Call) : Grows calls calls :=
  fun call hcall => ⟨call, hcall, List.prefix_rfl, rfl⟩

theorem Grows.trans {before between after : List Call} (h : Grows before between) (hrest : Grows between after) :
    Grows before after := by
  intro call hcall
  obtain ⟨next, hnext, hextends⟩ := h call hcall
  obtain ⟨last, hlast, hrest⟩ := hrest next hnext
  exact ⟨last, hlast, hextends.delivered.trans hrest.delivered, hrest.reading.trans hextends.reading⟩

theorem Call.Extends.write (call : Call) (request : Request) (written : Bool) :
    call.Extends (call.write request written) := by
  cases written with
  | false => exact ⟨List.prefix_rfl, rfl⟩
  | true => exact ⟨List.prefix_append .., rfl⟩

theorem Attempted.grows {audioData : List UInt8} {attempt : Attempt} {result : Bool × State}
    (h : Attempted client audioData attempt s result) : Grows s.calls result.2.calls := by
  cases h with
  | reused older newest hcalls =>
    intro call hcall
    rw [hcalls, List.mem_append, List.mem_singleton] at hcall
    obtain holder | rfl := hcall
    · exact ⟨call, by simp [holder], List.prefix_rfl, rfl⟩
    · exact ⟨_, by simp, .write call (.audio audioData) attempt.audioWritten⟩
  | opened => exact fun call hcall => ⟨call, List.mem_append_left _ hcall, List.prefix_rfl, rfl⟩
  | uncreated => exact .refl s.calls

theorem State.Newest.listener (h : s.Newest) (e : AudioDataEvent) :
    (listenerSpeechKitSend client s e).2.Newest ∧
      Grows s.calls (listenerSpeechKitSend client s e).2.calls := by
  have hcount : (s.count e.audioData).Newest := h.dropped rfl (s.call_count e.audioData)
  cases hlocked : e.locked with
  | false =>
    rw [listenerSpeechKitSend_of_not_locked hlocked]
    cases client with
    | streaming => exact ⟨h, .refl s.calls⟩
    | hybrid => exact ⟨hcount, .refl s.calls⟩
  | true =>
    have hfirst : Attempted client e.audioData e.first _ _ := hcount.attempted
    refine listenerSpeechKitSend_rule (fun _ after => after.Newest ∧ Grows s.calls after.calls) hlocked
      (fun after hwritten => ?_) fun before hfailed => ?_
    · rw [hwritten] at hfirst
      exact ⟨hfirst.newest hcount, hfirst.grows⟩
    · rw [hfailed] at hfirst
      have hdropped : ({ before with call := none } : State).Newest :=
        (hfirst.newest hcount).dropped rfl (.inl rfl)
      have hretry : Attempted client e.audioData e.retry _ _ := hdropped.attempted
      exact ⟨hretry.newest hdropped, hfirst.grows.trans hretry.grows⟩

theorem State.Newest.stepped (h : s.Newest) (act : Act) :
    (step client s act).Newest ∧ Grows s.calls (step client s act).calls := by
  cases act with
  | send e => exact h.listener e
  | dispose locked closed =>
    obtain ⟨hcalls, hcall⟩ := dispose_calls client s locked closed
    refine ⟨h.dropped hcalls hcall, ?_⟩
    rw [step, hcalls]
    exact .refl s.calls

theorem newest_run (client : Client) (acts : List Act) : (run client acts).Newest := by
  have hrun (s : State) (h : s.Newest) : (acts.foldl (step client) s).Newest := by
    induction acts generalizing s with
    | nil => exact h
    | cons act acts ih => exact ih _ (h.stepped act).1
  exact hrun {} newest_init

end grows

/-- The current call. -/
def State.current (s : State) : Option Call :=
  s.call.bind (s.calls[·]?)

/-- A property of all calls, and another one of the current call, which is the
newest. -/
structure State.Holds (all ready : Call → Prop) (s : State) : Prop where
  newest : s.Newest
  all : ∀ call ∈ s.calls, all call
  ready : ∀ call ∈ s.current, ready call

section holds

variable {client : Client} {all ready : Call → Prop} {s t : State}

theorem State.current_eq_none (h : s.call = none) : s.current = none := by
  rw [State.current, h]
  rfl

theorem State.current_eq_some {older : List Call} {newest : Call} (hcalls : s.calls = older ++ [newest])
    (hcall : s.call = some older.length) : s.current = some newest := by
  simp [State.current, hcalls, hcall]

theorem holds_init (all ready : Call → Prop) : ({} : State).Holds all ready :=
  ⟨newest_init, by simp, by simp [State.current]⟩

theorem State.Holds.dropped (h : s.Holds all ready) (hcalls : t.calls = s.calls)
    (hcall : t.call = none ∨ t.call = s.call) : t.Holds all ready := by
  refine ⟨h.newest.dropped hcalls hcall, by rw [hcalls]; exact h.all, fun call hcurrent => ?_⟩
  obtain hnone | hsame := hcall
  · simp [State.current_eq_none hnone] at hcurrent
  · apply h.ready call
    rwa [State.current, hcalls, hsame] at hcurrent

theorem State.Holds.of_last {older : List Call} {last : Call} (hcalls : t.calls = older ++ [last])
    (hcall : t.call = some older.length) (holder : ∀ call ∈ older, all call) (hlast : all last ∧ ready last) :
    t.Holds all ready := by
  refine ⟨fun call hcurrent => ?_, fun call hmem => ?_, fun call hcurrent => ?_⟩
  · rw [hcall] at hcurrent
    cases hcurrent
    simp [hcalls]
  · rw [hcalls, List.mem_append, List.mem_singleton] at hmem
    obtain hmem | rfl := hmem
    · exact holder call hmem
    · exact hlast.1
  · rw [State.current_eq_some hcalls hcall] at hcurrent
    cases hcurrent
    exact hlast.2

theorem State.Holds.attempted {audioData : List UInt8} {attempt : Attempt} {result : Bool × State}
    (h : s.Holds all ready)
    (hwrite : ∀ call ∈ s.current, all call → ready call →
      all (call.write (.audio audioData) attempt.audioWritten) ∧
        ready (call.write (.audio audioData) attempt.audioWritten))
    (hopened : s.call = none → attempt.Creates client →
      all (attempt.openedCall (s.reads client) audioData) ∧ ready (attempt.openedCall (s.reads client) audioData))
    (hattempted : Attempted client audioData attempt s result) : result.2.Holds all ready := by
  cases hattempted with
  | reused older newest hcalls hcall =>
    have hcurrent := State.current_eq_some hcalls hcall
    have hnewest := hwrite newest hcurrent (h.all newest (by simp [hcalls])) (h.ready newest hcurrent)
    exact .of_last rfl hcall (fun call hmem => h.all call (by simp [hcalls, hmem])) hnewest
  | opened hcall hcreates => exact .of_last rfl rfl h.all (hopened hcall hcreates)
  | uncreated => exact h

/-- The properties are kept by an invocation when its writes to the current call
keep them, and the calls that it opens have them. -/
theorem State.Holds.listener (h : s.Holds all ready) {e : AudioDataEvent}
    (hwrite : ∀ call ∈ (s.count e.audioData).current, all call → ready call →
      all (call.write (.audio e.audioData) e.first.audioWritten) ∧
        ready (call.write (.audio e.audioData) e.first.audioWritten))
    (hfirst : e.locked = true → (s.count e.audioData).call = none → e.first.Creates client →
      all (e.first.openedCall (s.reads client) e.audioData) ∧
        ready (e.first.openedCall (s.reads client) e.audioData))
    (hretry : ∀ before, e.locked = true →
      writeAudio client (s.count e.audioData) e.audioData e.first = (false, before) → e.retry.Creates client →
        all (e.retry.openedCall (before.reads client) e.audioData) ∧
          ready (e.retry.openedCall (before.reads client) e.audioData)) :
    (listenerSpeechKitSend client s e).2.Holds all ready := by
  have hcount : (s.count e.audioData).Holds all ready := h.dropped rfl (s.call_count e.audioData)
  cases hlocked : e.locked with
  | false =>
    rw [listenerSpeechKitSend_of_not_locked hlocked]
    cases client with
    | streaming => exact h
    | hybrid => exact hcount
  | true =>
    have hattempted : Attempted client e.audioData e.first _ _ := hcount.newest.attempted
    refine listenerSpeechKitSend_rule (fun _ after => after.Holds all ready) hlocked
      (fun after hwritten => ?_) fun before hfailed => ?_
    · rw [hwritten] at hattempted
      exact hcount.attempted hwrite (hfirst hlocked) hattempted
    · rw [hfailed] at hattempted
      have hdropped : ({ before with call := none } : State).Holds all ready :=
        (hcount.attempted hwrite (hfirst hlocked) hattempted).dropped rfl (.inl rfl)
      refine hdropped.attempted ?_ (fun _ => hretry before hlocked hfailed) hdropped.newest.attempted
      rw [State.current_eq_none rfl]
      simp

end holds

end solution_library.speechkit_stream
