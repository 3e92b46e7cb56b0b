import SolutionLibrary.Library.Loop
import SolutionLibrary.ObjectStorage

open solution_library.loop
open solution_library.object_storage
open solution_library.store

namespace solution_library.vision_ocr

structure Config where
  s3_prefix : Key
  s3_prefix_output : Key

inductive Json where
  | null
  | bool (value : Bool)
  | number (digits : String)
  | string (text : String)
  | array (items : List Json)
  | object (items : List (String × Json))

def Json.isContainer : Json → Bool
  | .array _ | .object _ => true
  | _ => false

mutual

/-- The values under a key that are neither objects nor arrays, in order. -/
def json_extract (key : String) : Json → List Json
  | .object items => json_extract_items key items
  | .array items => json_extract_list key items
  | _ => []

def json_extract_items (key : String) : List (String × Json) → List Json
  | [] => []
  | (k, v) :: items =>
    (if v.isContainer then json_extract key v else if k = key then [v] else []) ++ json_extract_items key items

def json_extract_list (key : String) : List Json → List Json
  | [] => []
  | item :: items => json_extract key item ++ json_extract_list key items

end

def Json.asString : Json → Option String
  | .string text => some text
  | _ => none

/-- `" ".join(words)` raises when a word is not a string. -/
def words_concat (result : Json) : Option String :=
  ((json_extract "text" result).mapM Json.asString).map (" ".intercalate ·)

/-- The content of an object of the bucket. -/
inductive Content where
  | json (result : Json)
  | text (text : String)
  | other

abbrev Bucket := Store Key Content

def suffixes : List Key :=
  [".jpg".toList, ".jpeg".toList, ".png".toList, ".pdf".toList]

/-- `key.lower().endswith(suffixes)`. -/
def supported (key : Key) : Bool :=
  suffixes.any (·.isSuffixOf (key.map Char.toLower))

/-- The key of the result, which also marks an object as processed. -/
def key_process (config : Config) (key : Key) : Key :=
  config.s3_prefix_output ++ key.drop config.s3_prefix.length ++ ".json".toList

def result_text_key (config : Config) (key : Key) : Key :=
  config.s3_prefix_output ++ key.drop config.s3_prefix.length ++ ".txt".toList

/-- How a request to the Vision API ends: answered with JSON, with an error that
is caught, or with another exception. -/
inductive Answer where
  | json (result : Json)
  | failed
  | raised

/-- What the calls for an input object meet in one run. `head` is the answer of
HEAD for an object that is there, and `get` says whether the file can be fetched. -/
structure Calls where
  head : Bool := true
  presigned : Reply := .ok
  get : Bool := true
  post : Option String → Answer
  putResult : Put := .ok
  putText : Put := .ok

/-- A file is fetched and sent with its MIME type. `none` is an exception: the one
of the fetch, also for a URL that is `None`, or after a request that failed the one
of the unbound `response_data`. -/
def analyze (mime_type : Option String) (calls : Calls) : Option Json :=
  match calls.presigned, calls.get with
  | .ok, true =>
    match calls.post mime_type with
    | .json result => some result
    | .failed | .raised => none
  | _, _ => none

def analyze_image : Calls → Option Json :=
  analyze none

def analyze_pdf : Calls → Option Json :=
  analyze (some "application/pdf")

def recognize (calls : Calls) (key : Key) : Option Json :=
  if ".pdf".toList.isSuffixOf (key.map Char.toLower) then analyze_pdf calls else analyze_image calls

/-- The end of the body of the loop: the text of a stored result. -/
def write_text (config : Config) (calls : Calls) (bucket : Bucket) (key : Key) (result : Json) : Bucket × Bool :=
  match words_concat result with
  | none => (bucket, true)
  | some text => (calls.putText.store bucket (result_text_key config key) (.text text), calls.putText matches .raised _)

def write_result (config : Config) (calls : Calls) (bucket : Bucket) (key : Key) (result : Json) : Bucket × Bool :=
  let bucket := calls.putResult.store bucket (key_process config key) (.json result)
  match calls.putResult with
  | .raised _ => (bucket, true)
  | .clientError => (bucket, false)
  | .ok => write_text config calls bucket key result

/-- The body of the loop over the input objects. -/
def process_input_object (config : Config) (calls : Key → Calls) (bucket : Bucket) (key : Key) : Bucket × Bool :=
  if ¬ supported key then (bucket, false)
  -- every failure of HEAD is read as a missing object
  else if (bucket.get (key_process config key)).isSome ∧ (calls key).head then (bucket, false)
  else
    match recognize (calls key) key with
    | none => (bucket, true)
    | some result => write_result config (calls key) bucket key result

/-- What one run of the script meets. -/
structure RunCalls where
  listing : Reply := .ok
  calls : Key → Calls

/-- One run of the script. -/
def process_input_objects (config : Config) (run : RunCalls) (bucket : Bucket) : Bucket :=
  match run.listing with
  | .clientError | .raised => bucket
  | .ok => (forEach (process_input_object config run.calls) bucket (list_objects_v2 bucket config.s3_prefix)).1

end solution_library.vision_ocr
