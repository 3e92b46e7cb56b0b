import Mathlib.Data.List.Forall2
import SolutionLibrary.Library.Invariant
import SolutionLibrary.SpeechWeb.Processor

open solution_library.invariant

namespace solution_library.speech_web

variable {Scores : Type}

/-- The processor handles what the readers raise: from the end of `Init` until
`Dispose` closes its database context. -/
def Processor.Listening (p : Processor Scores) : Prop :=
  p.subscribed = true ∧ p.dbConn = true

instance (p : Processor Scores) : Decidable p.Listening :=
  inferInstanceAs (Decidable (_ ∧ _))

def Entity.inference : Entity Scores → Option (Inference Scores)
  | .asrResponse _ => none
  | .mlInference inference => some inference

/-- What a session shows: the messages to its browser, its text and the
inferences it has stored. -/
def Processor.outputs (p : Processor Scores) : List (WssPayload Scores) × String × List (Inference Scores) :=
  (p.sent, p.wholeRefinementText, p.saved.filterMap Entity.inference)

/-- The same event, but for the content of a response on the call of another
session. -/
inductive Event.Changed (session : SessionId) : Event Scores → Event Scores → Prop where
  | same (event : Event Scores) : Event.Changed session event event
  | response {call : SessionId} (hcall : call ≠ session) (response other : StreamingResponse) :
      Event.Changed session (.response call response) (.response call other)

/-- The outputs of a session do not change at any time when the responses on the
calls of other sessions do. -/
def Isolated (service : Service) (session : SessionId) (events : List (Event Scores)) : Prop :=
  ∀ changed, List.Forall₂ (Event.Changed session) events changed → ∀ n,
    (run service (changed.take n) session).outputs = (run service (events.take n) session).outputs

/-- A response on the call of another session comes while the processor does not
listen. -/
def Event.Unheard (session : SessionId) (s : SessionId → Processor Scores) : Event Scores → Prop
  | .response call _ => call ≠ session → ¬ (s session).Listening
  | .session _ _ => True

instance (session : SessionId) (s : SessionId → Processor Scores) (event : Event Scores) :
    Decidable (event.Unheard session s) :=
  match event with
  | .response _ _ => inferInstanceAs (Decidable (_ → _))
  | .session _ _ => .isTrue trivial

instance (session : SessionId) : Std.Refl (@Event.Changed Scores session) :=
  ⟨.same⟩

section isolated

variable {service : Service} {session : SessionId}

theorem asrRecived_of_not_listening {p : Processor Scores} (h : ¬ p.Listening) (response : StreamingResponse) :
    p.asrRecived service session response = p := by
  rw [Processor.asrRecived, if_pos (not_and_or.mp h)]

theorem step_of_not_listening {s : SessionId → Processor Scores} (h : ¬ (s session).Listening) (call : SessionId)
    (response : StreamingResponse) : step service s (.response call response) session = s session := by
  simp only [step]
  split
  · exact asrRecived_of_not_listening h response
  · rfl

/-- A step that changes only what the session does not hear takes it to the same
state. -/
theorem step_congr {s other : SessionId → Processor Scores} {event changed : Event Scores}
    (hsame : s session = other session) (hchanged : event.Changed session changed)
    (hunheard : event.Unheard session s) :
    step service s event session = step service other changed session := by
  cases hchanged with
  | same =>
    cases event with
    | response call response => simp only [step, hsame]
    | session owner event =>
      by_cases howner : session = owner
      · subst howner
        simp [step, hsame]
      · simp [step, howner, hsame]
  | response hcall response changed =>
    rw [step_of_not_listening (hunheard hcall), step_of_not_listening (hsame ▸ hunheard hcall), hsame]

theorem foldl_congr {events changed : List (Event Scores)}
    (hchanged : List.Forall₂ (Event.Changed session) events changed)
    {s other : SessionId → Processor Scores} (hsame : s session = other session)
    (hunheard : Along (step service) (fun s event => event.Unheard session s) s events) :
    events.foldl (step service) s session = changed.foldl (step service) other session := by
  induction hchanged generalizing s other with
  | nil => exact hsame
  | cons hevent _ ih => exact ih (step_congr hsame hevent hunheard.1) hunheard.2

theorem text_responseToBrowser (p : Processor Scores) (responseModel : ResponseModel) :
    (p.responseToBrowser responseModel).wholeRefinementText = p.wholeRefinementText := by
  simp only [Processor.responseToBrowser, Processor.sendToWebsocket]
  split
  · rfl
  · split <;> rfl

/-- What a listening processor adds to its text for a refinement. -/
theorem text_asrRecived {p : Processor Scores} (h : p.Listening) (texts : List String) :
    (p.asrRecived service session ⟨.FinalRefinement, some texts⟩).wholeRefinementText =
      p.wholeRefinementText ++ getWholeText (texts.map service.substituteText) := by
  simp [Processor.asrRecived, h.1, h.2, text_responseToBrowser]

theorem getWholeText_singleton_ne (text : String) : getWholeText [text] ≠ "" := by
  simp [getWholeText, String.join]

/-- The processor of a session that listens shows what is said in another one. -/
theorem not_isolated (before after : List (Event Scores)) {event : Event Scores}
    (h : ¬ event.Unheard session (before.foldl (step service) fun _ => {})) :
    ¬ Isolated service session (before ++ event :: after) := by
  intro hisolated
  cases event with
  | session => exact h trivial
  | response call response =>
    have hcall : call ≠ session := fun hcall => h fun hne => absurd hcall hne
    have hlistening : (run service before session).Listening := not_not.mp fun hnot => h fun _ => hnot
    have hother (other : StreamingResponse) :
        (run service (before ++ [.response call other]) session).outputs =
          (run service (before ++ [.response call response]) session).outputs := by
      have hchanged : List.Forall₂ (Event.Changed session) (before ++ .response call response :: after)
          (before ++ .response call other :: after) :=
        List.rel_append (List.forall₂_refl before) (.cons (.response hcall response other) (List.forall₂_refl after))
      have hlength (event : Event Scores) :
          (before ++ event :: after).take (before.length + 1) = before ++ [event] := by
        rw [List.take_length_add_append, List.take_succ_cons, List.take_zero]
      have hprefix := hisolated _ hchanged (before.length + 1)
      rwa [hlength, hlength] at hprefix
    -- a status code and a refinement do not leave the same text
    have houtputs := (hother ⟨.StatusCode, none⟩).trans (hother ⟨.FinalRefinement, some [""]⟩).symm
    have htext := congrArg (fun outputs => outputs.2.1) houtputs
    simp only [run, List.foldl_append, List.foldl_cons, List.foldl_nil] at htext hlistening
    have hrefined := @text_asrRecived _ service session _ hlistening [""]
    simp only [Processor.outputs, step, ne_eq, not_true_eq_false, reduceCtorEq, not_false_eq_true, ↓reduceIte,
      hrefined] at htext
    exact getWholeText_singleton_ne (service.substituteText "") (by simpa using htext.symm)

/-- A session is isolated exactly when every response on the call of another one
comes while its processor does not listen. -/
theorem isolated_iff_unheard (service : Service) (session : SessionId) (events : List (Event Scores)) :
    Isolated service session events ↔
      Along (step service) (fun s event => event.Unheard session s) (fun _ => {}) events := by
  constructor
  · intro hisolated
    by_contra hheard
    obtain ⟨before, event, after, rfl, hevent⟩ := exists_of_not_along hheard
    exact not_isolated before after hevent hisolated
  · intro hunheard changed hchanged n
    have htaken : Along (step service) (fun s event => event.Unheard session s) (fun _ => {}) (events.take n) := by
      rw [← List.take_append_drop n events, along_append] at hunheard
      exact hunheard.1
    have hstates := foldl_congr (List.forall₂_take n hchanged) rfl htaken
    exact congrArg Processor.outputs hstates.symm

end isolated

/-- Two sessions are open, and the second one gets its first response. -/
theorem other_session_heard :
    let events : List (Event ℕ) := [.session 0 (.init true), .session 1 (.init true),
      .response 1 ⟨.FinalRefinement, some ["the card number is"]⟩]
    ¬ Isolated ⟨id, false⟩ 0 events :=
  not_isolated [.session 0 (.init true), .session 1 (.init true)] [] (by decide)

end solution_library.speech_web
