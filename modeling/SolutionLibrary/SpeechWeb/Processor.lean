import Mathlib.Data.List.Basic

namespace solution_library.speech_web

/-- A session of the web service, numbered by its `AsrProcessor`. -/
abbrev SessionId := ℕ

/-- What `Guid.NewGuid()` gives: the processor that asks, and how often it has
asked before. -/
structure Guid where
  processor : SessionId
  drawn : ℕ
  deriving DecidableEq

/-- `StreamingResponse.EventOneofCase`. -/
inductive EventCase where
  | None
  | Partial
  | Final
  | EouUpdate
  | FinalRefinement
  | StatusCode
  deriving DecidableEq

/-- A response of SpeechKit, with the texts of the alternatives that its event
carries. A refinement without a normalized text has none. -/
structure StreamingResponse where
  eventCase : EventCase
  alternatives : Option (List String)
  deriving DecidableEq

structure ResponseModel where
  recognitionId : Guid
  sessionId : SessionId
  eventCase : EventCase
  alternatives : List String
  deriving DecidableEq

/-- What the inference service says about a text; `Scores` are the weights of
the emotions. -/
structure Inference (Scores : Type) where
  recognition_id : Guid
  scores : Scores
  text : String
  deriving DecidableEq

/-- The messages to the browser. -/
inductive WssPayload (Scores : Type) where
  | connect
  | data (asr_event_id : Guid) (asr_event_type : EventCase) (text : String)
  | ml (inference : Inference Scores)
  deriving DecidableEq

/-- The entities of the database. -/
inductive Entity (Scores : Type) where
  | asrResponse (response : ResponseModel)
  | mlInference (inference : Inference Scores)
  deriving DecidableEq

/-- The configuration of the service: the dictionary of `SubstituteText`, and
whether `MlApiKey` is set. -/
structure Service where
  substituteText : String → String
  mlInference : Bool

/-- An `AsrProcessor` with its web socket, its database context and its client.
`requests` are the handlers that wait for the inference service, and `ending` is
what `SafeFinalResults` is saving. -/
structure Processor (Scores : Type) where
  started : Bool := false
  subscribed : Bool := false
  dbConn : Bool := false
  speechKitClient : Bool := false
  webSocket : Bool := false
  drawn : ℕ := 0
  finalRefinement : Option ResponseModel := none
  wholeRefinementText : String := ""
  requests : List ResponseModel := []
  ending : Option (Option ResponseModel) := none
  audio : List (List UInt8) := []
  sent : List (WssPayload Scores) := []
  added : List (Entity Scores) := []
  saved : List (Entity Scores) := []
  deriving DecidableEq

def getWholeText (alternatives : List String) : String :=
  String.join (alternatives.map (· ++ "\n"))

section processor

variable {Scores : Type}

def Processor.sendToWebsocket (p : Processor Scores) (wpl : WssPayload Scores) : Processor Scores :=
  if p.webSocket then { p with sent := p.sent ++ [wpl] } else p

def Processor.responseToBrowser (p : Processor Scores) (responseModel : ResponseModel) : Processor Scores :=
  let text := getWholeText responseModel.alternatives
  if text = "" then p
  else p.sendToWebsocket (.data responseModel.recognitionId responseModel.eventCase text)

/-- The handler of `ChunkRecived`, up to the point where it waits for the
inference service. It does not look at the call that the response comes from. -/
def Processor.asrRecived (service : Service) (session : SessionId) (p : Processor Scores)
    (response : StreamingResponse) : Processor Scores :=
  if ¬ p.subscribed ∨ ¬ p.dbConn then p
  else if response.eventCase ≠ .Final ∧ response.eventCase ≠ .Partial ∧ response.eventCase ≠ .FinalRefinement then p
  else
    let recognitionId := { processor := session, drawn := p.drawn }
    let p := { p with drawn := p.drawn + 1 }
    match response.alternatives with
    -- `mapResponseJson` raises, and the handler catches it
    | none => p
    | some alternatives =>
      let responseModel := {
        recognitionId
        sessionId := session
        eventCase := response.eventCase
        alternatives := alternatives.map service.substituteText }
      let p := p.responseToBrowser responseModel
      if response.eventCase = .FinalRefinement then
        { p with
          finalRefinement := some responseModel
          wholeRefinementText := p.wholeRefinementText ++ getWholeText responseModel.alternatives
          requests := p.requests ++ [responseModel] }
      else p

/-- `SaveChanges`, which stores all that has been added, or raises. -/
def Processor.saveChanges (p : Processor Scores) (saved : Bool) : Processor Scores :=
  if saved then { p with saved := p.saved ++ p.added, added := [] } else p

/-- `SentimentAnalysis`, given what the service answers. It raises when the
service gives nothing, and returns nothing without the service or alternatives. -/
def Processor.sentimentAnalysis (p : Processor Scores) (service : Service) (responseModel : ResponseModel)
    (answer : Option Scores) : Option (Option (Inference Scores)) × Processor Scores :=
  if service.mlInference ∧ responseModel.alternatives ≠ [] then
    match answer with
    | none => (none, p)
    | some scores =>
      let inference := {
        recognition_id := responseModel.recognitionId
        scores
        text := getWholeText responseModel.alternatives }
      (some (some inference), p.sendToWebsocket (.ml inference))
  else (some none, p)

/-- The rest of the handler. Adding a missing inference raises. -/
def Processor.analysed (service : Service) (p : Processor Scores) (request : ℕ) (answer : Option Scores)
    (saved : Bool) : Processor Scores :=
  match p.requests[request]? with
  | none => p
  | some responseModel =>
    let p := { p with requests := p.requests.eraseIdx request }
    match p.sentimentAnalysis service responseModel answer with
    | (some (some inference), p) =>
      if p.dbConn then
        let p := { p with added := p.added ++ [Entity.mlInference inference] }
        p.saveChanges saved
      else p
    | (_, p) => p

/-- `SafeFinalResults` up to the point where it waits. `final` is never set. -/
def Processor.safeFinalResults (p : Processor Scores) : Processor Scores :=
  match p.finalRefinement with
  | none => { p with ending := some none }
  | some responseModel =>
    match responseModel.alternatives with
    | [] => p
    | _ :: alternatives =>
      let responseModel := { responseModel with alternatives := p.wholeRefinementText :: alternatives }
      { p with finalRefinement := some responseModel, ending := some (some responseModel) }

def Processor.dispose (p : Processor Scores) : Processor Scores :=
  if p.speechKitClient then { p with dbConn := false, speechKitClient := false } else p

/-- The rest of `SafeFinalResults`, and `Dispose` if it returns: an exception
leaves the processor as it is. -/
def Processor.finish (service : Service) (p : Processor Scores) (answer : Option Scores) (tracked saved : Bool) :
    Processor Scores :=
  match p.ending with
  | none => p
  | some none => Processor.dispose { p with ending := none }
  | some (some responseModel) =>
    let p := { p with ending := none }
    match p.sentimentAnalysis service responseModel answer with
    | (none, p) => p
    | (some none, p) => { p with added := p.added ++ [.asrResponse responseModel] }
    | (some (some inference), p) =>
      if tracked then
        let p := { p with added := p.added ++ [.asrResponse responseModel, .mlInference inference] }
        if saved then (p.saveChanges saved).dispose else p
      else p

end processor

/-- What happens in a session, other than a response. -/
inductive SessionEvent (Scores : Type) where
  | init (created : Bool)
  | audio (audioData : List UInt8)
  | closed
  | analysed (request : ℕ) (answer : Option Scores) (saved : Bool)
  | safeFinalResults
  | finish (answer : Option Scores) (tracked saved : Bool)

/-- `Init` is called once, and subscribes to the event of all readers as its last
step. -/
def Processor.handle {Scores : Type} (service : Service) (p : Processor Scores) :
    SessionEvent Scores → Processor Scores
  | .init created =>
    if p.started then p
    else { p with
      started := true
      webSocket := true
      sent := p.sent ++ [.connect]
      dbConn := true
      speechKitClient := created
      subscribed := created }
  | .audio audioData => if p.speechKitClient then { p with audio := p.audio ++ [audioData] } else p
  | .closed => { p with webSocket := false }
  | .analysed request answer saved => p.analysed service request answer saved
  | .safeFinalResults => p.safeFinalResults
  | .finish answer tracked saved => p.finish service answer tracked saved

/-- An event of the service: a reader has got a response on the call of a
session, or something else happens in a session. -/
inductive Event (Scores : Type) where
  | response (call : SessionId) (response : StreamingResponse)
  | session (session : SessionId) (event : SessionEvent Scores)

/-- A reader raises `ChunkRecived`, which is static, for all responses but the
status codes: every subscribed processor handles it. -/
def step {Scores : Type} (service : Service) (s : SessionId → Processor Scores) :
    Event Scores → SessionId → Processor Scores
  | .response _ response => fun session =>
    if response.eventCase ≠ .StatusCode then (s session).asrRecived service session response else s session
  | .session session event => Function.update s session ((s session).handle service event)

/-- The processors after a run. -/
def run {Scores : Type} (service : Service) (events : List (Event Scores)) : SessionId → Processor Scores :=
  events.foldl (step service) fun _ => {}

end solution_library.speech_web
