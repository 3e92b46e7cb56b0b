import SolutionLibrary.Library.Loop
import SolutionLibrary.ObjectStorage

open solution_library.loop
open solution_library.object_storage
open solution_library.store

namespace solution_library.asr_batch

structure Config where
  s3_prefix : Key
  s3_prefix_log : Key
  s3_prefix_output : Key

/-- A chunk of a recognition result, and the fields of it that are read. A
field that is missing is `none`. -/
structure Chunk where
  channelTag : Option String
  alternatives : Option (List (Option String))
  deriving DecidableEq

/-- A JSON object, with the fields that the script reads: `done` by its truth
value, and the chunks of `response`. -/
structure JsonData where
  id : Option String := none
  done : Option Bool := none
  chunks : Option (List Chunk) := none
  deriving DecidableEq

/-- The content of an object of the bucket. -/
inductive Content where
  | json (data : JsonData)
  | text (text : String)
  | other
  deriving DecidableEq

abbrev Bucket := Store Key Content

def suffixes : List Key :=
  [".mp3".toList, ".wav".toList, ".ogg".toList]

/-- `key.lower().endswith(suffixes)`. -/
def supported (key : Key) : Bool :=
  suffixes.any (·.isSuffixOf (key.map Char.toLower))

/-- The key of the log object of an input key. -/
def key_process (config : Config) (key : Key) : Key :=
  config.s3_prefix_log ++ key.drop config.s3_prefix.length ++ ".json".toList

/-- How a request ends: answered with JSON, with an error that is caught, or with
another exception, such as a body that is not JSON. -/
inductive Answer where
  | json (data : JsonData)
  | failed
  | raised
  deriving DecidableEq

/-- What the calls for an input object meet in one run. `head` is the answer of
HEAD for an object that is there. -/
structure SubmitCalls where
  head : Bool := true
  presigned : Reply := .ok
  post : Answer
  put : Put := .ok

/-- What the calls for a log object meet in one run. -/
structure CheckCalls where
  read : Reply := .ok
  poll : Answer
  putResult : Put := .ok
  putText : Put := .ok
  putRecord : Put := .ok

/-- The bucket, with the inputs sent to `longRunningRecognize` and the operations
polled, each with its answer, the oldest first. -/
structure World where
  bucket : Bucket
  sent : List Key := []
  polled : List (Key × String × Answer) := []

/-- What a request for recognition gives: `none` is an exception, and a failed
request gives `None`. -/
def create_recognition_task (post : Answer) : Option (Option JsonData) :=
  match post with
  | .raised => none
  | .failed => some none
  | .json data =>
    match data.id with
    | none => none
    | some id =>
      if id = "" then some (some {}) -- `{"Status": "None"}`
      else some (some data)

def World.write (w : World) (key : Key) (put : Put) (content : Content) : World :=
  { w with bucket := put.store w.bucket key content }

/-- `write_process_status` logs a `ClientError`. -/
def write_process_status (w : World) (key : Key) (put : Put) (data : JsonData) : World × Bool :=
  (w.write key put (.json data), put matches .raised _)

/-- The recognition of an input object is requested, and its log object is
written unless the request failed. -/
def submit_input_object (config : Config) (calls : SubmitCalls) (w : World) (key : Key) : World × Bool :=
  let w := { w with sent := w.sent ++ [key] }
  match create_recognition_task calls.post with
  | none => (w, true)
  | some none => (w, false)
  | some (some data) => write_process_status w (key_process config key) calls.put data

/-- The body of the loop over the input objects. -/
def process_input_object (config : Config) (calls : Key → SubmitCalls) (w : World) (key : Key) : World × Bool :=
  if ¬ supported key then (w, false)
  -- every failure of HEAD is read as a missing object
  else if (w.bucket.get (key_process config key)).isSome ∧ (calls key).head then (w, false)
  else
    match (calls key).presigned with
    | .raised => (w, true)
    | .ok | .clientError => submit_input_object config (calls key) w key

def process_input_objects (config : Config) (listing : Reply) (calls : Key → SubmitCalls) (w : World) :
    World × Bool :=
  match listing with
  | .raised => (w, true)
  | .clientError => (w, false)
  | .ok => forEach (process_input_object config calls) w (list_objects_v2 w.bucket config.s3_prefix)

/-- The text of the chunks of the first channel; a missing field raises. -/
def result_text : List Chunk → Option String
  | [] => some ""
  | chunk :: chunks => do
    let channelTag ← chunk.channelTag
    if channelTag = "1" then
      let alternatives ← chunk.alternatives
      let texts ← alternatives.mapM id
      return String.join (texts.map (· ++ "\n")) ++ (← result_text chunks)
    else result_text chunks

def result_key (config : Config) (key : Key) : Key :=
  config.s3_prefix_output ++ key.drop config.s3_prefix_log.length

def result_text_key (config : Config) (key : Key) : Key :=
  (result_key config key).take ((result_key config key).length - 5) ++ ".txt".toList

/-- The end of the body of the loop over the log objects: the record becomes
done. -/
def write_done (calls : CheckCalls) (w : World) (key : Key) (id : String) : World × Bool :=
  (w.write key calls.putRecord (.json { id := some id, done := some true }), calls.putRecord matches .raised _)

/-- A finished operation: its result, its text and its record are stored. -/
def write_results (config : Config) (calls : CheckCalls) (w : World) (key : Key) (id : String)
    (result_data : JsonData) : World × Bool :=
  let w := w.write (result_key config key) calls.putResult (.json result_data)
  match calls.putResult with
  | .raised _ => (w, true)
  | .clientError => (w, false)
  | .ok =>
    match result_data.chunks with
    | none => write_done calls w key id
    | some chunks =>
      match result_text chunks with
      | none => (w, true)
      | some text =>
        let w := w.write (result_text_key config key) calls.putText (.text text)
        match calls.putText with
        | .raised _ => (w, true)
        | .clientError => (w, false)
        | .ok => write_done calls w key id

/-- The operation of a record is polled. The truth value of a missing field
raises. -/
def check_operation (config : Config) (calls : CheckCalls) (w : World) (key : Key) (id : String) : World × Bool :=
  let w := { w with polled := w.polled ++ [(key, id, calls.poll)] }
  match calls.poll with
  | .raised => (w, true)
  | .failed => (w, false)
  | .json result_data =>
    match result_data.done with
    | none => (w, true)
    -- the message of an operation in progress reads its `id`
    | some false => (w, result_data.id = none)
    | some true => write_results config calls w key id result_data

/-- The body of the loop over the log objects. -/
def check_processing_object (config : Config) (calls : Key → CheckCalls) (w : World) (key : Key) : World × Bool :=
  if ¬ ".json".toList.isSuffixOf key then (w, false)
  else
    match (calls key).read, w.bucket.get key with
    | .raised, _ => (w, true)
    | .clientError, _ | .ok, none => (w, false)
    | .ok, some (.json data) =>
      match data.id, data.done with
      | none, _ => (w, true)
      | some id, done =>
        if id = "" then (w, false)
        else
          match done with
          | none => (w, true)
          | some true => (w, false)
          | some false => check_operation config (calls key) w key id
    | .ok, some _ => (w, true)

def check_processing_objects (config : Config) (listing : Reply) (calls : Key → CheckCalls) (w : World) :
    World × Bool :=
  match listing with
  | .raised => (w, true)
  | .clientError => (w, false)
  | .ok => forEach (check_processing_object config calls) w (list_objects_v2 w.bucket config.s3_prefix_log)

/-- What one run of the script meets. -/
structure RunCalls where
  inputs : Reply := .ok
  submit : Key → SubmitCalls
  logs : Reply := .ok
  check : Key → CheckCalls

/-- One run of the script. -/
def main (config : Config) (calls : RunCalls) (w : World) : World :=
  match process_input_objects config calls.inputs calls.submit w with
  | (w, true) => w
  | (w, false) => (check_processing_objects config calls.logs calls.check w).1

end solution_library.asr_batch
