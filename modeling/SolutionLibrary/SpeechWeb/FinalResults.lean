import SolutionLibrary.SpeechWeb.Processor

namespace solution_library.speech_web.final_results

variable {Scores : Type}

/-- The handler of `ChunkRecived` up to its first wait, for the message to the
browser. -/
def received (service : Service) (session : SessionId) (p : Processor Scores) (response : StreamingResponse) :
    Processor Scores × Option ResponseModel :=
  if ¬ p.subscribed ∨ ¬ p.dbConn then (p, none)
  else if response.eventCase ≠ .Final ∧ response.eventCase ≠ .Partial ∧ response.eventCase ≠ .FinalRefinement then
    (p, none)
  else
    let recognitionId := { processor := session, drawn := p.drawn }
    let p := { p with drawn := p.drawn + 1 }
    match response.alternatives with
    | none => (p, none)
    | some alternatives =>
      let responseModel := {
        recognitionId
        sessionId := session
        eventCase := response.eventCase
        alternatives := alternatives.map service.substituteText }
      (p.responseToBrowser responseModel, some responseModel)

/-- The handler from there to its second wait, for the inference service. -/
def refined (p : Processor Scores) (responseModel : ResponseModel) : Processor Scores :=
  if responseModel.eventCase = .FinalRefinement then
    { p with
      finalRefinement := some responseModel
      wholeRefinementText := p.wholeRefinementText ++ getWholeText responseModel.alternatives
      requests := p.requests ++ [responseModel] }
  else p

/-- What `CreateTiket` does; an answer may be without a key. -/
inductive Tracker where
  | off
  | answered
  | raised
  deriving DecidableEq

/-- `DoFinaleResponseTasks`. The flag is the exception. -/
def doFinaleResponseTasks (service : Service) (p : Processor Scores) (responseModel : ResponseModel)
    (answer : Option Scores) (tracker : Tracker) : Processor Scores × Bool :=
  match p.sentimentAnalysis service responseModel answer with
  | (none, p) => (p, true)
  -- the response is added, and then a null inference
  | (some none, p) => ({ p with added := p.added ++ [.asrResponse responseModel] }, true)
  | (some (some inference), p) =>
    match tracker with
    | .raised => (p, true)
    | .off | .answered =>
      let p := { p with added := p.added ++ [Entity.asrResponse responseModel, .mlInference inference] }
      (p.saveChanges true, false)

/-- A session with the handlers that wait for their message to the browser.
`refinements` are the final refinements on the call of the session, and `resumed`
those whose handlers have gone on. -/
structure State (Scores : Type) where
  processor : Processor Scores
  handlers : List ResponseModel := []
  refinements : List ResponseModel := []
  resumed : List ResponseModel := []

/-- The processor gets the responses on all calls; `own` says that it is one on the
call of the session. -/
inductive Event (Scores : Type) where
  | received (own : Bool) (response : StreamingResponse)
  | resumed (handler : ℕ)
  | analysed (request : ℕ) (answer : Option Scores) (saved : Bool)
  | closed

def step (service : Service) (session : SessionId) (s : State Scores) : Event Scores → State Scores
  | .received own response =>
    let (p, responseModel) := received service session s.processor response
    let refinement := {
      recognitionId := { processor := session, drawn := s.processor.drawn }
      sessionId := session
      eventCase := response.eventCase
      alternatives := (response.alternatives.getD []).map service.substituteText }
    { s with
      processor := p
      handlers := s.handlers ++ responseModel.toList
      refinements := if own ∧ response.eventCase = .FinalRefinement then s.refinements ++ [refinement]
        else s.refinements }
  | .resumed handler =>
    match s.handlers[handler]? with
    | none => s
    | some responseModel =>
      { s with
        processor := refined s.processor responseModel
        handlers := s.handlers.eraseIdx handler
        resumed := if responseModel.eventCase = .FinalRefinement then s.resumed ++ [responseModel] else s.resumed }
  | .analysed request answer saved => { s with processor := s.processor.analysed service request answer saved }
  | .closed => { s with processor := { s.processor with webSocket := false } }

def run (service : Service) (session : SessionId) (s : State Scores) (events : List (Event Scores)) : State Scores :=
  events.foldl (step service session) s

/-- The session after `Init`. -/
def start (service : Service) : State Scores where
  processor := ({} : Processor Scores).handle service (.init true)

/-- `SafeFinalResults`. While it waits for the inference service and the tracker,
handlers may still go on. -/
def safeFinalResults (service : Service) (session : SessionId) (s : State Scores) (during : List (Event Scores))
    (answer : Option Scores) (tracker : Tracker) : Processor Scores × Bool :=
  match s.processor.finalRefinement with
  | none => (s.processor, false)
  | some responseModel =>
    match responseModel.alternatives with
    | [] => (s.processor, true)
    | _ :: alternatives =>
      let responseModel := { responseModel with alternatives := s.processor.wholeRefinementText :: alternatives }
      let s := { s with processor := { s.processor with finalRefinement := some responseModel } }
      doFinaleResponseTasks service (run service session s during).processor responseModel answer tracker

def wholeText (refinements : List ResponseModel) : String :=
  String.join (refinements.map fun responseModel => getWholeText responseModel.alternatives)

/-- `SafeFinalResults` has returned, and the last final refinement of the session
is saved with the text of all of them. -/
structure FinalSaved (s : State Scores) (outcome : Processor Scores × Bool) : Prop where
  returns : outcome.2 = false
  saved : ∃ last response, s.refinements.getLast? = some last ∧ Entity.asrResponse response ∈ outcome.1.saved ∧
    response.recognitionId = last.recognitionId ∧ response.alternatives.head? = some (wholeText s.refinements)

/-- The refinement whose handler has gone on last is the last one of the session,
and has an alternative. The texts, in the order in which the handlers have gone
on, make up that of the session. -/
structure State.InOrder (s : State Scores) : Prop where
  last : ∃ last response, s.refinements.getLast? = some last ∧ s.resumed.getLast? = some response ∧
    response.recognitionId = last.recognitionId ∧ response.alternatives ≠ []
  text : wholeText s.resumed = wholeText s.refinements

section processor

variable {service : Service} {session : SessionId} {p : Processor Scores} {responseModel : ResponseModel}

/-- A handler that goes on at once is the one of the processor. -/
theorem asrRecived_eq (response : StreamingResponse) :
    p.asrRecived service session response =
      ((received service session p response).2.map
        (refined (received service session p response).1)).getD (received service session p response).1 := by
  rw [Processor.asrRecived, received]
  split
  · rfl
  · split
    · rfl
    · cases response.alternatives <;> rfl

theorem sendToWebsocket_eq (p : Processor Scores) (wpl : WssPayload Scores) :
    ∃ sent, p.sendToWebsocket wpl = { p with sent } := by
  rw [Processor.sendToWebsocket]
  split
  · exact ⟨_, rfl⟩
  · exact ⟨p.sent, rfl⟩

theorem responseToBrowser_eq (p : Processor Scores) (responseModel : ResponseModel) :
    ∃ sent, p.responseToBrowser responseModel = { p with sent } := by
  simp only [Processor.responseToBrowser]
  split
  · exact ⟨p.sent, rfl⟩
  · exact sendToWebsocket_eq p _

theorem received_eq (service : Service) (session : SessionId) (p : Processor Scores) (response : StreamingResponse) :
    ∃ drawn sent, (received service session p response).1 = { p with drawn, sent } := by
  rw [received]
  split
  · exact ⟨p.drawn, p.sent, rfl⟩
  · split
    · exact ⟨p.drawn, p.sent, rfl⟩
    · cases response.alternatives with
      | none => exact ⟨p.drawn + 1, p.sent, rfl⟩
      | some alternatives =>
        obtain ⟨sent, hsent⟩ := responseToBrowser_eq { p with drawn := p.drawn + 1 } _
        exact ⟨p.drawn + 1, sent, hsent⟩

/-- There is an inference exactly when the service is configured and answers. -/
theorem sentimentAnalysis_cases (service : Service) (p : Processor Scores) (responseModel : ResponseModel)
    (answer : Option Scores) :
    (service.mlInference = true ∧ responseModel.alternatives ≠ [] ∧ answer ≠ none) ∧
        (∃ inference sent,
          p.sentimentAnalysis service responseModel answer = (some (some inference), { p with sent })) ∨
      ¬ (service.mlInference = true ∧ responseModel.alternatives ≠ [] ∧ answer ≠ none) ∧
        (p.sentimentAnalysis service responseModel answer = (none, p) ∨
          p.sentimentAnalysis service responseModel answer = (some none, p)) := by
  unfold Processor.sentimentAnalysis
  by_cases hservice : service.mlInference ∧ responseModel.alternatives ≠ []
  · rw [if_pos hservice]
    cases answer with
    | none => exact Or.inr ⟨by simp, Or.inl rfl⟩
    | some scores =>
      obtain ⟨sent, hsent⟩ := sendToWebsocket_eq p
        (.ml ⟨responseModel.recognitionId, scores, getWholeText responseModel.alternatives⟩)
      exact Or.inl ⟨⟨hservice.1, hservice.2, by simp⟩, _, sent, congrArg _ hsent⟩
  · rw [if_neg hservice]
    exact Or.inr ⟨fun h => hservice ⟨h.1, h.2.1⟩, Or.inr rfl⟩

/-- No response is stored, and none is about to be. -/
def Unsaved (p : Processor Scores) : Prop :=
  ∀ response, Entity.asrResponse response ∉ p.added ∧ Entity.asrResponse response ∉ p.saved

/-- The handler stores inferences only. -/
theorem analysed_eq (service : Service) (p : Processor Scores) (request : ℕ) (answer : Option Scores) (saved : Bool) :
    (p.analysed service request answer saved).finalRefinement = p.finalRefinement ∧
      (p.analysed service request answer saved).wholeRefinementText = p.wholeRefinementText ∧
        (p.analysed service request answer saved).ending = p.ending ∧
          (Unsaved p → Unsaved (p.analysed service request answer saved)) := by
  unfold Processor.analysed
  cases p.requests[request]? with
  | none => exact ⟨rfl, rfl, rfl, id⟩
  | some responseModel =>
    obtain ⟨_, inference, sent, heq⟩ | ⟨_, heq | heq⟩ := sentimentAnalysis_cases service
      { p with requests := p.requests.eraseIdx request } responseModel answer
    · simp only [heq]
      split
      · refine ⟨?_, ?_, ?_, fun hunsaved response => ?_⟩
        · cases saved <;> rfl
        · cases saved <;> rfl
        · cases saved <;> rfl
        · obtain ⟨hadded, hsaved⟩ := hunsaved response
          cases saved <;> simp [Processor.saveChanges, hadded, hsaved]
      · exact ⟨rfl, rfl, rfl, id⟩
    · simp only [heq]
      exact ⟨trivial, trivial, trivial, id⟩
    · simp only [heq]
      exact ⟨trivial, trivial, trivial, id⟩

/-- The end of the session saves the response exactly when there is an inference and
the tracker does not raise. -/
theorem doFinaleResponseTasks_cases (service : Service) (p : Processor Scores) (responseModel : ResponseModel)
    (answer : Option Scores) (tracker : Tracker) (halternatives : responseModel.alternatives ≠ []) :
    (service.mlInference = true ∧ answer ≠ none ∧ tracker ≠ .raised) ∧
        (∃ inference, (doFinaleResponseTasks service p responseModel answer tracker).1.saved =
          p.saved ++ (p.added ++ [.asrResponse responseModel, .mlInference inference])) ∧
        (doFinaleResponseTasks service p responseModel answer tracker).2 = false ∨
      ¬ (service.mlInference = true ∧ answer ≠ none ∧ tracker ≠ .raised) ∧
        (doFinaleResponseTasks service p responseModel answer tracker).2 = true := by
  unfold doFinaleResponseTasks
  obtain ⟨⟨hservice, _, hanswer⟩, inference, sent, heq⟩ | ⟨hnone, heq | heq⟩ :=
    sentimentAnalysis_cases service p responseModel answer
  · simp only [heq]
    cases tracker with
    | raised => exact Or.inr ⟨fun h => h.2.2 rfl, rfl⟩
    | off | answered => exact Or.inl ⟨⟨hservice, hanswer, by simp⟩, ⟨inference, rfl⟩, rfl⟩
  · simp only [heq]
    exact Or.inr ⟨fun h => hnone ⟨h.1, halternatives, h.2.1⟩, trivial⟩
  · simp only [heq]
    exact Or.inr ⟨fun h => hnone ⟨h.1, halternatives, h.2.1⟩, trivial⟩

/-- What is left of the processor at the end of a session: an exception keeps it
from being disposed of. -/
def ended (outcome : Processor Scores × Bool) : Processor Scores :=
  if outcome.2 then outcome.1 else outcome.1.dispose

theorem finish_eq {p : Processor Scores} {responseModel : ResponseModel} (h : p.ending = some (some responseModel))
    (service : Service) (answer : Option Scores) (tracker : Tracker) :
    p.finish service answer (tracker ≠ .raised) true =
      ended (doFinaleResponseTasks service { p with ending := none } responseModel answer tracker) := by
  unfold Processor.finish doFinaleResponseTasks ended
  rw [h]
  generalize hanalysis : Processor.sentimentAnalysis { p with ending := none } service responseModel answer = analysis
  obtain ⟨none | none | inference, after⟩ := analysis
  · simp [hanalysis]
  · simp [hanalysis]
  · cases tracker <;> simp [hanalysis]

end processor

section runs

variable {service : Service} {session : SessionId} {s : State Scores}

theorem wholeText_append (first second : List ResponseModel) :
    wholeText (first ++ second) = wholeText first ++ wholeText second := by
  simp [wholeText]

/-- The processor holds the refinements whose handlers have gone on. -/
structure State.Follows (s : State Scores) : Prop where
  final : s.processor.finalRefinement = s.resumed.getLast?
  text : s.processor.wholeRefinementText = wholeText s.resumed

theorem State.Follows.step (h : s.Follows) (event : Event Scores) : (step service session s event).Follows := by
  cases event with
  | received own response =>
    obtain ⟨drawn, sent, heq⟩ := received_eq service session s.processor response
    refine ⟨?_, ?_⟩
    · change (received service session s.processor response).1.finalRefinement = _
      rw [heq]
      exact h.final
    · change (received service session s.processor response).1.wholeRefinementText = _
      rw [heq]
      exact h.text
  | resumed handler =>
    rw [final_results.step]
    split
    · exact h
    · next responseModel _ =>
      by_cases hcase : responseModel.eventCase = .FinalRefinement
      · simp only [refined, if_pos hcase]
        refine ⟨by simp, ?_⟩
        rw [wholeText_append, h.text]
        simp [wholeText]
      · simp only [refined, if_neg hcase]
        exact ⟨h.final, h.text⟩
  | analysed request answer saved =>
    obtain ⟨hfinal, htext, _⟩ := analysed_eq service s.processor request answer saved
    exact ⟨hfinal.trans h.final, htext.trans h.text⟩
  | closed => exact ⟨h.final, h.text⟩

theorem State.Follows.run (h : s.Follows) (events : List (Event Scores)) : (run service session s events).Follows := by
  induction events generalizing s with
  | nil => exact h
  | cons event events ih => exact ih (h.step event)

theorem Unsaved.step (h : Unsaved s.processor) (event : Event Scores) :
    Unsaved (step service session s event).processor := by
  cases event with
  | received own response =>
    obtain ⟨drawn, sent, heq⟩ := received_eq service session s.processor response
    change Unsaved (received service session s.processor response).1
    rw [heq]
    exact h
  | resumed handler =>
    rw [final_results.step]
    split
    · exact h
    · simp only [refined]
      split <;> exact h
  | analysed request answer saved => exact (analysed_eq service s.processor request answer saved).2.2.2 h
  | closed => exact h

theorem Unsaved.run (h : Unsaved s.processor) (events : List (Event Scores)) :
    Unsaved (run service session s events).processor := by
  induction events generalizing s with
  | nil => exact h
  | cons event events ih => exact ih (h.step event)

theorem start_follows : (start service : State Scores).Follows :=
  ⟨rfl, rfl⟩

theorem start_unsaved : Unsaved (start service : State Scores).processor :=
  fun _ => ⟨List.not_mem_nil, List.not_mem_nil⟩

/-- Without a refinement there is nothing to save, and one without alternatives
raises. -/
theorem not_finalSaved (hfollows : s.Follows) (hunsaved : Unsaved s.processor) (during : List (Event Scores))
    (answer : Option Scores) (tracker : Tracker)
    (h : ∀ response, s.resumed.getLast? = some response → response.alternatives = []) :
    ¬ FinalSaved s (safeFinalResults service session s during answer tracker) := by
  rintro ⟨hreturns, _, response, _, hsaved, _⟩
  unfold safeFinalResults at hreturns hsaved
  cases hlast : s.resumed.getLast? with
  | none =>
    rw [hfollows.final, hlast] at hsaved
    exact (hunsaved response).2 hsaved
  | some last => simp [hfollows.final, hlast, h last hlast] at hreturns

/-- A refinement with alternatives takes the whole text, and is handed over. -/
theorem safeFinalResults_eq (hfollows : s.Follows) {response : ResponseModel} {alternative : String}
    {alternatives : List String} (hlast : s.resumed.getLast? = some response)
    (halternatives : response.alternatives = alternative :: alternatives) (during : List (Event Scores))
    (answer : Option Scores) (tracker : Tracker) :
    ∃ p : Processor Scores, (Unsaved s.processor → Unsaved p) ∧
      safeFinalResults service session s during answer tracker = doFinaleResponseTasks service p
        { response with alternatives := wholeText s.resumed :: alternatives } answer tracker := by
  rw [← hfollows.text]
  let patched : ResponseModel := { response with alternatives := s.processor.wholeRefinementText :: alternatives }
  let waiting : State Scores := { s with processor := { s.processor with finalRefinement := some patched } }
  refine ⟨(run service session waiting during).processor, fun hunsaved => ?_, ?_⟩
  · have hwaiting : Unsaved waiting.processor := hunsaved
    exact hwaiting.run during
  · unfold safeFinalResults
    simp only [hfollows.final, hlast, halternatives, waiting, patched]

/-- When the handlers of all refinements of the session go on in the order of the
responses, and no others, the texts come in order. -/
theorem State.InOrder.of_resumed_eq (h : s.resumed = s.refinements) {last : ResponseModel}
    (hlast : s.refinements.getLast? = some last) (hne : last.alternatives ≠ []) : s.InOrder :=
  ⟨⟨last, last, hlast, by rw [h, hlast], rfl, hne⟩, by rw [h]⟩

end runs

/-- What one session sees of an event of the service, when its handlers go on at
once. -/
def atOnce (session : SessionId) : speech_web.Event Scores → List (Event Scores)
  | .response call response => [.received (call = session) response, .resumed 0]
  | .session other (.analysed request answer saved) =>
    if other = session then [.analysed request answer saved] else []
  | .session other .closed => if other = session then [.closed] else []
  | .session _ _ => []

/-- The session goes on. -/
def GoesOn (session : SessionId) : speech_web.Event Scores → Prop
  | .response _ _ | .session _ (.analysed _ _ _) | .session _ .closed => True
  | .session other _ => other ≠ session

section sessions

variable {service : Service} {session : SessionId} {s : SessionId → Processor Scores} {t : State Scores}

/-- The processor of one session among all, while no handler waits and the session
has not ended. -/
structure Alone (session : SessionId) (s : SessionId → Processor Scores) (t : State Scores) : Prop where
  processor : t.processor = s session
  handlers : t.handlers = []
  ending : (s session).ending = none

theorem step_response (call : SessionId) (response : StreamingResponse) :
    speech_web.step service s (.response call response) session =
      (s session).asrRecived service session response := by
  rw [speech_web.step]
  split_ifs with hstatus
  · rfl
  · rw [asrRecived_eq, received]
    simp [not_not.mp hstatus]

theorem Alone.response (h : Alone session s t) (call : SessionId) (response : StreamingResponse) :
    Alone session (speech_web.step service s (.response call response))
      (run service session t [.received (call = session) response, .resumed 0]) := by
  obtain ⟨drawn, sent, heq⟩ := received_eq service session t.processor response
  have hending : (received service session t.processor response).1.ending = none := by
    rw [heq]
    exact h.processor ▸ h.ending
  have hstep : speech_web.step service s (.response call response) session = _ := step_response call response
  rw [asrRecived_eq, ← h.processor] at hstep
  rw [run, List.foldl_cons, List.foldl_cons, List.foldl_nil]
  simp only [final_results.step, h.handlers, List.nil_append]
  cases hmodel : (received service session t.processor response).2 with
  | none =>
    rw [hmodel, Option.map_none, Option.getD_none] at hstep
    exact ⟨hstep.symm, rfl, hstep ▸ hending⟩
  | some responseModel =>
    rw [hmodel, Option.map_some, Option.getD_some] at hstep
    refine ⟨hstep.symm, rfl, hstep ▸ ?_⟩
    unfold refined
    split <;> exact hending

theorem Alone.other (h : Alone session s t) {other : SessionId} (hother : other ≠ session)
    (event : SessionEvent Scores) : Alone session (speech_web.step service s (.session other event)) t := by
  have hsame : speech_web.step service s (.session other event) session = s session :=
    Function.update_of_ne hother.symm _ _
  exact ⟨h.processor.trans hsame.symm, h.handlers, hsame ▸ h.ending⟩

theorem Alone.step (h : Alone session s t) {event : speech_web.Event Scores} (hevent : GoesOn session event) :
    Alone session (speech_web.step service s event) (run service session t (atOnce session event)) := by
  cases event with
  | response call response => exact h.response call response
  | session other event =>
    by_cases hother : other = session
    · subst hother
      have hself (event : SessionEvent Scores) : speech_web.step service s (.session other event) other =
          (s other).handle service event := Function.update_self ..
      cases event with
      | init created => exact absurd rfl hevent
      | audio audioData => exact absurd rfl hevent
      | safeFinalResults => exact absurd rfl hevent
      | finish answer tracked saved => exact absurd rfl hevent
      | closed =>
        rw [atOnce, if_pos rfl]
        refine ⟨?_, h.handlers, ?_⟩
        · rw [hself, Processor.handle, ← h.processor]
          rfl
        · rw [hself]
          exact h.ending
      | analysed request answer saved =>
        rw [atOnce, if_pos rfl]
        refine ⟨?_, h.handlers, ?_⟩
        · rw [hself, Processor.handle, ← h.processor]
          rfl
        · rw [hself, Processor.handle, (analysed_eq service _ request answer saved).2.2.1]
          exact h.ending
    · have hnone : atOnce session (.session other event) = [] := by
        cases event with
        | analysed | closed => exact if_neg hother
        | init | audio | safeFinalResults | finish => rfl
      rw [hnone]
      exact h.other hother event

theorem finish_safeFinalResults (h : t.processor.ending = none) (answer : Option Scores) (tracker : Tracker) :
    t.processor.safeFinalResults.finish service answer (tracker ≠ .raised) true =
      ended (safeFinalResults service session t [] answer tracker) := by
  obtain ⟨⟨started, subscribed, dbConn, speechKitClient, webSocket, drawn, finalRefinement, text, requests, ending,
    audio, sent, added, saved⟩, handlers, refinements, resumed⟩ := t
  obtain rfl : ending = none := h
  cases finalRefinement with
  | none => rfl
  | some responseModel =>
    obtain ⟨recognitionId, sessionId, eventCase, alternatives⟩ := responseModel
    cases alternatives with
    | nil => rfl
    | cons alternative alternatives => exact finish_eq rfl service answer tracker

theorem Alone.foldl (h : Alone session s t) {events : List (speech_web.Event Scores)}
    (hevents : ∀ event ∈ events, GoesOn session event) :
    Alone session (events.foldl (speech_web.step service) s)
      (run service session t (events.flatMap (atOnce session))) := by
  induction events generalizing s t with
  | nil => exact h
  | cons event events ih =>
    obtain ⟨hevent, hevents⟩ := List.forall_mem_cons.mp hevents
    rw [List.flatMap_cons, run, List.foldl_append]
    exact ih (h.step hevent) hevents

/-- When its handlers go on at once, a session ends as it does among all sessions. -/
theorem ended_at_once (service : Service) (session : SessionId) (events : List (speech_web.Event Scores))
    (hevents : ∀ event ∈ events, GoesOn session event) (answer : Option Scores) (tracker : Tracker) :
    speech_web.run service (.session session (.init true) :: (events ++ [.session session .safeFinalResults,
        .session session (.finish answer (tracker ≠ .raised) true)])) session =
      ended (safeFinalResults service session (run service session (start service) (events.flatMap (atOnce session)))
        [] answer tracker) := by
  have hself (s : SessionId → Processor Scores) (event : SessionEvent Scores) :
      speech_web.step service s (.session session event) session = (s session).handle service event :=
    Function.update_self ..
  have hinit : Alone session (speech_web.step service (fun _ => {}) (.session session (.init true)))
      (start service : State Scores) := by
    refine ⟨?_, rfl, ?_⟩
    · rw [hself]
      rfl
    · rw [hself]
      rfl
  obtain ⟨hprocessor, -, hending⟩ : Alone session _ (run service session (start service) _) := hinit.foldl hevents
  rw [speech_web.run, List.foldl_cons, List.foldl_append, List.foldl_cons, List.foldl_cons, List.foldl_nil, hself,
    hself]
  rw [← hprocessor] at hending ⊢
  exact finish_safeFinalResults hending answer tracker

end sessions

/-- Whatever happens in the session, its last final refinement is saved with the
whole text exactly if the inference service is configured and answers, the
tracker does not raise, and the handlers have gone on in order. -/
theorem final_saved_iff (service : Service) (session : SessionId) (events during : List (Event Scores))
    (answer : Option Scores) (tracker : Tracker) :
    FinalSaved (run service session (start service) events)
        (safeFinalResults service session (run service session (start service) events) during answer tracker) ↔
      (service.mlInference = true ∧ answer ≠ none ∧ tracker ≠ .raised) ∧
        (run service session (start service) events).InOrder := by
  have hfollows : (run service session (start service) events).Follows := start_follows.run events
  have hunsaved : Unsaved (run service session (start service) events).processor := start_unsaved.run events
  generalize run service session (start service) events = s at hfollows hunsaved
  by_cases hlast : ∃ response, s.resumed.getLast? = some response ∧ response.alternatives ≠ []
  · obtain ⟨response, hlast, hne⟩ := hlast
    obtain ⟨alternative, alternatives, halternatives⟩ := List.exists_cons_of_ne_nil hne
    obtain ⟨p, hp, heq⟩ := @safeFinalResults_eq _ service session _ hfollows _ _ _ hlast halternatives during answer
      tracker
    rw [heq]
    obtain ⟨hservices, ⟨inference, hsaved⟩, hreturns⟩ | ⟨hservices, hraised⟩ := doFinaleResponseTasks_cases service p
      { response with alternatives := wholeText s.resumed :: alternatives } answer tracker (by simp)
    · rw [and_iff_right hservices]
      have hmem (other : ResponseModel) : Entity.asrResponse other ∈ (doFinaleResponseTasks service p
          { response with alternatives := wholeText s.resumed :: alternatives } answer tracker).1.saved ↔
            other = { response with alternatives := wholeText s.resumed :: alternatives } := by
        obtain ⟨hadded, hbefore⟩ := hp hunsaved other
        simp [hsaved, hadded, hbefore]
      constructor
      · rintro ⟨_, last, other, hlastOwn, hother, hid, htext⟩
        obtain rfl := (hmem other).mp hother
        exact ⟨⟨last, response, hlastOwn, hlast, hid, hne⟩, by simpa using htext⟩
      · rintro ⟨⟨last, other, hlastOwn, hother, hid, _⟩, htext⟩
        obtain rfl := Option.some.inj (hlast.symm.trans hother)
        exact ⟨hreturns, last, _, hlastOwn, (hmem _).mpr rfl, hid, by simp [htext]⟩
    · refine iff_of_false (fun h => ?_) fun h => hservices h.1
      exact absurd h.returns (by simp [hraised])
  · have hempty : ∀ response, s.resumed.getLast? = some response → response.alternatives = [] :=
      fun response hresponse => not_not.mp fun hne => hlast ⟨response, hresponse, hne⟩
    refine iff_of_false (not_finalSaved hfollows hunsaved during answer tracker hempty) fun h => ?_
    obtain ⟨_, response, _, hresponse, _, hne⟩ := h.2.last
    exact hne (hempty response hresponse)

/-- Without `MlApiKey` the results are lost: a null inference is added, which
raises before anything is saved. -/
theorem unconfigured_inference_loses_results :
    let service : Service := ⟨id, false⟩
    let s : State ℕ := run service 0 (start service)
      [.received true ⟨.FinalRefinement, some ["good morning"]⟩, .resumed 0, .analysed 0 none true]
    let outcome := safeFinalResults service 0 s [] none .off
    s.refinements.map ResponseModel.alternatives = [["good morning"]] ∧ outcome.2 = true ∧ outcome.1.saved = [] ∧
      ¬ FinalSaved s outcome := by
  intro service s outcome
  refine ⟨by decide, by decide, by decide, fun hsaved => ?_⟩
  have hreturns := hsaved.returns
  revert hreturns
  decide

end solution_library.speech_web.final_results
