import SolutionLibrary.VisionOcr.Outputs

open solution_library.invariant
open solution_library.loop
open solution_library.object_storage
open solution_library.store

namespace solution_library.vision_ocr.ocr_function

/-- A message of the trigger, with what its handling meets. When the time of an
invocation is up, it ends as with an exception. -/
structure Delivery where
  object_id : Key
  calls : Calls

/-- The body of the loop over the messages. Unlike the script, the function does
not ask whether there is a result. -/
def process_message (config : Config) (bucket : Bucket) (msg : Delivery) : Bucket × Bool :=
  if ¬ supported msg.object_id then (bucket, false)
  else
    match recognize msg.calls msg.object_id with
    | none => (bucket, true)
    | some result => write_result config msg.calls bucket msg.object_id result

def process_input_objects (config : Config) (messages : List Delivery) (bucket : Bucket) : Bucket :=
  (forEach (process_message config) bucket messages).1

/-- The objects that the handling of a message stores, one after another, and
whether it raises. -/
def handled (config : Config) (msg : Delivery) : List (Key × Content) × Bool :=
  if ¬ supported msg.object_id then ([], false)
  else
    match recognize msg.calls msg.object_id with
    | none => ([], true)
    | some result =>
      let json := if msg.calls.putResult.stores then [(key_process config msg.object_id, .json result)] else []
      match msg.calls.putResult with
      | .raised _ => (json, true)
      | .clientError => (json, false)
      | .ok =>
        match words_concat result with
        | none => (json, true)
        | some text =>
          let words :=
            if msg.calls.putText.stores then [(result_text_key config msg.object_id, Content.text text)] else []
          (json ++ words, msg.calls.putText matches .raised _)

/-- The objects that an invocation stores. -/
def puts (config : Config) : List Delivery → List (Key × Content)
  | [] => []
  | msg :: messages => (handled config msg).1 ++ if (handled config msg).2 then [] else puts config messages

/-- The bucket, the objects that the trigger has been told of, and what the running
invocations are still to store. -/
structure State where
  bucket : Bucket
  events : List Key
  running : List (List (Key × Content))

/-- The trigger invokes the function, or an invocation stores its next object. -/
inductive Act where
  | invoke (messages : List Delivery)
  | put (invocation : ℕ)

/-- Invocations run side by side. The trigger is told of each object that is put
under the input prefix, by whomever. -/
def step (config : Config) (s : State) : Act → State
  | .invoke messages => { s with running := puts config messages :: s.running }
  | .put invocation =>
    match s.running[invocation]? with
    | some ((key, content) :: rest) =>
      { bucket := s.bucket.put key content
        events := if config.s3_prefix.isPrefixOf key then key :: s.events else s.events
        running := s.running.set invocation rest }
    | _ => s

/-- The objects of the bucket have been uploaded. -/
def start (config : Config) (bucket : Bucket) : State :=
  ⟨bucket, bucket.keys.filter (config.s3_prefix.isPrefixOf ·), []⟩

/-- The trigger delivers what it has been told of, in any order, any number of
times, and the service reads the same in an object each time. -/
def Delivers (result : Key → Json) (s : State) : Act → Prop
  | .invoke messages => ∀ msg ∈ messages, msg.object_id ∈ s.events ∧
      ∀ found, recognize msg.calls msg.object_id = some found → found = result msg.object_id
  | .put _ => True

/-- No invocation is to store anything more. -/
def State.Finished (s : State) : Prop :=
  ∀ rest ∈ s.running, rest = []

/-- The handling of the message stores the text, which comes last. -/
def Delivery.Stores (msg : Delivery) : Prop :=
  supported msg.object_id ∧ ∃ result, recognize msg.calls msg.object_id = some result ∧
    msg.calls.putResult = .ok ∧ words_concat result ≠ none ∧ msg.calls.putText.stores = true

def Delivery.Raises (msg : Delivery) : Prop :=
  supported msg.object_id ∧ ∀ result, recognize msg.calls msg.object_id = some result → msg.calls.WriteRaises result

/-- An invocation comes to a message for the object that stores its text. -/
def Delivered (acts : List Act) (key : Key) : Prop :=
  ∃ before msg after, .invoke (before ++ msg :: after) ∈ acts ∧ msg.object_id = key ∧ msg.Stores ∧
    ∀ other ∈ before, ¬ other.Raises

section handled

variable {config : Config} {bucket : Bucket} {msg : Delivery} {messages : List Delivery}

theorem process_message_eq (config : Config) (bucket : Bucket) (msg : Delivery) :
    process_message config bucket msg = (bucket.putAll (handled config msg).1, (handled config msg).2) := by
  rw [process_message, handled]
  split
  · rfl
  · cases recognize msg.calls msg.object_id with
    | none => rfl
    | some result =>
      simp only [write_result, Put.store]
      cases hresult : msg.calls.putResult with
      | raised stored => cases stored <;> rfl
      | clientError => rfl
      | ok =>
        simp only [write_text, Put.store]
        cases words_concat result with
        | none => rfl
        | some text =>
          cases htext : msg.calls.putText with
          | raised stored => cases stored <;> rfl
          | clientError | ok => rfl

/-- An invocation on its own stores its objects in the bucket. -/
theorem process_input_objects_eq (config : Config) (messages : List Delivery) (bucket : Bucket) :
    process_input_objects config messages bucket = bucket.putAll (puts config messages) := by
  induction messages generalizing bucket with
  | nil => rfl
  | cons msg messages ih =>
    rw [process_input_objects, puts]
    cases hraised : (handled config msg).2 with
    | true =>
      rw [forEach_cons_of_raised (by rw [process_message_eq, hraised]), process_message_eq, if_pos rfl, List.append_nil]
    | false =>
      rw [forEach_cons (by rw [process_message_eq, hraised]), process_message_eq, if_neg Bool.false_ne_true,
        Store.putAll_append]
      exact ih _

theorem handled_raised : (handled config msg).2 = true ↔ msg.Raises := by
  have hraised : (handled config msg).2 = (process_message config Store.empty msg).2 := by rw [process_message_eq]
  rw [hraised, process_message, Delivery.Raises]
  by_cases hsupported : supported msg.object_id
  · rw [if_neg (not_not_intro hsupported), and_iff_right hsupported]
    cases recognize msg.calls msg.object_id with
    | none => simp
    | some result => simpa using write_result_raised msg.calls Store.empty msg.object_id result
  · rw [if_pos hsupported]
    simp [hsupported]

theorem mem_handled {write : Key × Content} : write ∈ (handled config msg).1 ↔
    supported msg.object_id ∧ ∃ result, recognize msg.calls msg.object_id = some result ∧
      (msg.calls.putResult.stores = true ∧ write = (key_process config msg.object_id, .json result) ∨
        msg.calls.putResult = .ok ∧ msg.calls.putText.stores = true ∧ ∃ text, words_concat result = some text ∧
          write = (result_text_key config msg.object_id, .text text)) := by
  rw [handled]
  by_cases hsupported : supported msg.object_id
  · rw [if_neg (not_not_intro hsupported), and_iff_right hsupported]
    cases recognize msg.calls msg.object_id with
    | none => simp
    | some result =>
      simp only [Option.some.injEq, exists_eq_left']
      cases hresult : msg.calls.putResult with
      | raised stored => cases stored <;> simp [Put.stores]
      | clientError => simp [Put.stores]
      | ok =>
        cases words_concat result with
        | none => simp [Put.stores]
        | some text => cases msg.calls.putText.stores <;> simp [Put.stores]
  · rw [if_pos hsupported]
    simp [hsupported]

/-- What an invocation stores, it stores at a message that it comes to. -/
theorem mem_puts {write : Key × Content} : write ∈ puts config messages ↔
    ∃ before msg after, messages = before ++ msg :: after ∧ write ∈ (handled config msg).1 ∧
      ∀ other ∈ before, ¬ other.Raises := by
  induction messages with
  | nil => simp [puts]
  | cons msg messages ih =>
    rw [puts, List.mem_append]
    constructor
    · rintro (hhere | hlater)
      · exact ⟨[], msg, messages, rfl, hhere, by simp⟩
      · split_ifs at hlater with hraised
        · cases hlater
        · obtain ⟨before, other, after, rfl, hwrite, hbefore⟩ := ih.mp hlater
          refine ⟨msg :: before, other, after, rfl, hwrite, List.forall_mem_cons.mpr ⟨?_, hbefore⟩⟩
          exact fun hraises => hraised (handled_raised.mpr hraises)
    · rintro ⟨before, other, after, hsplit, hwrite, hbefore⟩
      obtain ⟨rfl, hsplit⟩ | ⟨before, rfl, rfl⟩ := List.cons_eq_append_iff.mp hsplit
      · cases hsplit
        exact .inl hwrite
      · obtain ⟨hmsg, hbefore⟩ := List.forall_mem_cons.mp hbefore
        right
        rw [if_neg fun hraised => hmsg (handled_raised.mp hraised)]
        exact ih.mpr ⟨before, other, after, rfl, hwrite, hbefore⟩

end handled

/-- A run of the script in which all calls succeed. -/
def scriptRun (result : Key → Json) : RunCalls where
  calls := fun key => { post := fun _ => .json (result key) }

/-- The two outputs of an object. -/
def outputWrites (config : Config) (result : Key → Json) (text : Key → String) (key : Key) : List (Key × Content) :=
  [(key_process config key, .json (result key)), (result_text_key config key, .text (text key))]

/-- The outputs of all supported objects under the input prefix. -/
def allWrites (config : Config) (result : Key → Json) (text : Key → String) (bucket : Bucket) :
    List (Key × Content) :=
  ((list_objects_v2 bucket config.s3_prefix).filter supported).flatMap (outputWrites config result text)

section script

variable {config : Config} {result : Key → Json} {text : Key → String} {bucket : Bucket} {key : Key}

theorem recognize_scriptRun (result : Key → Json) (key : Key) :
    recognize ((scriptRun result).calls key) key = some (result key) := by
  rw [recognize]
  split
  · rfl
  · rfl

theorem process_scriptRun (htext : ∀ key, words_concat (result key) = some (text key))
    (hnew : supported key → bucket.get (key_process config key) = none) :
    process_input_object config (scriptRun result).calls bucket key =
      (bucket.putAll (if supported key then outputWrites config result text key else []), false) := by
  rw [process_input_object]
  by_cases hsupported : supported key
  · rw [if_neg (not_not_intro hsupported), if_neg (by simp [hnew hsupported]), recognize_scriptRun, if_pos hsupported]
    simp only [write_result, scriptRun, write_text, htext]
    rfl
  · rw [if_pos hsupported, if_neg hsupported]
    rfl

theorem forEach_scriptRun (htext : ∀ key, words_concat (result key) = some (text key)) {keys : List Key}
    (hnodup : keys.Nodup) (hunder : ∀ key ∈ keys, config.s3_prefix <+: key)
    (hnew : ∀ key ∈ keys, supported key → bucket.get (key_process config key) = none) :
    forEach (process_input_object config (scriptRun result).calls) bucket keys =
      (bucket.putAll ((keys.filter supported).flatMap (outputWrites config result text)), false) := by
  induction keys generalizing bucket with
  | nil => rfl
  | cons key keys ih =>
    obtain ⟨hkey, hnodup⟩ := List.nodup_cons.mp hnodup
    obtain ⟨hkeyPrefix, hunder⟩ := List.forall_mem_cons.mp hunder
    obtain ⟨hkeyNew, hnew⟩ := List.forall_mem_cons.mp hnew
    have hbody := process_scriptRun htext hkeyNew
    rw [forEach_cons (by rw [hbody]), hbody, ih hnodup hunder]
    · by_cases hsupported : supported key
      · rw [if_pos hsupported, List.filter_cons_of_pos hsupported, List.flatMap_cons, Store.putAll_append]
      · rw [if_neg hsupported, List.filter_cons_of_neg hsupported]
        rfl
    · intro other hother hsupported
      rw [Store.get_putAll_of_ne, hnew other hother hsupported]
      intro write hwrite heq
      split_ifs at hwrite
      · obtain rfl | hwrite := List.mem_cons.mp hwrite
        · exact hkey (key_process_inj hkeyPrefix (hunder other hother) heq ▸ hother)
        · obtain rfl := List.mem_singleton.mp hwrite
          exact key_process_ne_result_text_key config other key heq.symm
      · cases hwrite

/-- The script stores all outputs. -/
theorem script_eq (htext : ∀ key, words_concat (result key) = some (text key))
    (hnew : ∀ key ∈ list_objects_v2 bucket config.s3_prefix, supported key →
      bucket.get (key_process config key) = none) :
    vision_ocr.process_input_objects config (scriptRun result) bucket =
      bucket.putAll (allWrites config result text bucket) := by
  have hloop := forEach_scriptRun htext (nodup_list_objects_v2 bucket config.s3_prefix)
    (fun key hkey => mem_list_objects_v2 hkey) hnew
  simp only [vision_ocr.process_input_objects, scriptRun] at hloop ⊢
  rw [hloop, allWrites]

theorem mem_allWrites {write : Key × Content} : write ∈ allWrites config result text bucket ↔
    ∃ key ∈ list_objects_v2 bucket config.s3_prefix, supported key ∧ write ∈ outputWrites config result text key := by
  simp only [allWrites, List.mem_flatMap, List.mem_filter, and_assoc]

/-- Each output has one value. -/
theorem allWrites_injective : ∀ write ∈ allWrites config result text bucket,
    ∀ other ∈ allWrites config result text bucket, write.1 = other.1 → write = other := by
  intro write hwrite other hother heq
  obtain ⟨key, hkey, -, hwrite⟩ := mem_allWrites.mp hwrite
  obtain ⟨key', hkey', -, hother⟩ := mem_allWrites.mp hother
  have hkey := mem_list_objects_v2 hkey
  have hkey' := mem_list_objects_v2 hkey'
  simp only [outputWrites, List.mem_cons, List.not_mem_nil, or_false] at hwrite hother
  obtain rfl | rfl := hwrite
  · obtain rfl | rfl := hother
    · rw [key_process_inj hkey hkey' heq]
    · exact absurd heq (key_process_ne_result_text_key config key key')
  · obtain rfl | rfl := hother
    · exact absurd heq.symm (key_process_ne_result_text_key config key' key)
    · rw [result_text_key_inj hkey hkey' heq]

/-- The function does not process its own outputs. -/
theorem not_supported_of_mem_outputWrites {write : Key × Content} (h : write ∈ outputWrites config result text key) :
    ¬ supported write.1 := by
  have hlast : write.1.getLast? = some 'n' ∨ write.1.getLast? = some 't' := by
    simp only [outputWrites, List.mem_cons, List.not_mem_nil, or_false] at h
    obtain rfl | rfl := h
    · simp [key_process]
    · simp [result_text_key]
  intro hsupported
  obtain ⟨suffix, hsuffix, hends⟩ := List.any_eq_true.mp hsupported
  obtain ⟨front, hfront⟩ := List.isSuffixOf_iff_suffix.mp hends
  have hlower := congrArg List.getLast? hfront
  rw [List.getLast?_map] at hlower
  simp only [suffixes, List.mem_cons, List.not_mem_nil, or_false] at hsuffix
  obtain hlast | hlast := hlast <;> obtain rfl | rfl | rfl | rfl := hsuffix <;>
    simp [hlast, List.getLast?_append] at hlower

end script

/-- What an act sets out to store. -/
def Act.puts (config : Config) : Act → List (Key × Content)
  | .invoke messages => ocr_function.puts config messages
  | .put _ => []

/-- The messages that are not passed over are for uploaded objects. -/
def Proper (config : Config) (result : Key → Json) (bucket : Bucket) (acts : List Act) : Prop :=
  ∀ messages, .invoke messages ∈ acts → ∀ msg ∈ messages, supported msg.object_id →
    msg.object_id ∈ list_objects_v2 bucket config.s3_prefix ∧
      ∀ found, recognize msg.calls msg.object_id = some found → found = result msg.object_id

/-- The bucket holds what has been stored so far, and the rest is still to be
stored. -/
structure Storing (config : Config) (result : Key → Json) (bucket : Bucket) (acts : List Act) (s : State) : Prop where
  stored : ∃ performed, s.bucket = bucket.putAll performed ∧
    (performed ++ s.running.flatten).Perm (acts.flatMap (Act.puts config))
  proper : Proper config result bucket acts
  events : ∀ key ∈ s.events, supported key → key ∈ list_objects_v2 bucket config.s3_prefix

section runs

variable {config : Config} {result : Key → Json} {text : Key → String} {bucket : Bucket} {acts : List Act} {s : State}

theorem Proper.subset_allWrites (h : Proper config result bucket acts)
    (htext : ∀ key, words_concat (result key) = some (text key)) :
    acts.flatMap (Act.puts config) ⊆ allWrites config result text bucket := by
  intro write hwrite
  obtain ⟨act, hact, hwrite⟩ := List.mem_flatMap.mp hwrite
  cases act with
  | put invocation => cases hwrite
  | invoke messages =>
    obtain ⟨before, msg, after, rfl, hwrite, -⟩ := mem_puts.mp hwrite
    obtain ⟨hsupported, found, hfound, hwrite⟩ := mem_handled.mp hwrite
    obtain ⟨hlisted, hsteady⟩ := h _ hact msg (by simp) hsupported
    refine mem_allWrites.mpr ⟨msg.object_id, hlisted, hsupported, ?_⟩
    rw [hsteady found hfound] at hwrite
    obtain ⟨-, rfl⟩ | ⟨-, -, words, hwords, rfl⟩ := hwrite
    · exact List.mem_cons_self
    · obtain rfl := Option.some.inj (hwords.symm.trans (htext _))
      exact List.mem_cons_of_mem _ List.mem_cons_self

/-- The outputs of an object are stored exactly if the object is delivered. -/
theorem Proper.outputWrites_subset_iff (h : Proper config result bucket acts)
    (htext : ∀ key, words_concat (result key) = some (text key)) {key : Key}
    (hkey : key ∈ list_objects_v2 bucket config.s3_prefix) :
    outputWrites config result text key ⊆ acts.flatMap (Act.puts config) ↔ Delivered acts key := by
  constructor
  · intro hsubset
    have hwords : (result_text_key config key, Content.text (text key)) ∈ acts.flatMap (Act.puts config) :=
      hsubset (List.mem_cons_of_mem _ List.mem_cons_self)
    obtain ⟨act, hact, hwrite⟩ := List.mem_flatMap.mp hwords
    cases act with
    | put invocation => cases hwrite
    | invoke messages =>
      obtain ⟨before, msg, after, rfl, hwrite, hbefore⟩ := mem_puts.mp hwrite
      obtain ⟨hsupported, found, hfound, hwrite⟩ := mem_handled.mp hwrite
      obtain ⟨-, hwrite⟩ | ⟨hresult, hstores, words, hwords, hwrite⟩ := hwrite
      · exact absurd (congrArg Prod.fst hwrite).symm (key_process_ne_result_text_key config msg.object_id key)
      · obtain ⟨hlisted, -⟩ := h _ hact msg (by simp) hsupported
        have hsame := result_text_key_inj (mem_list_objects_v2 hkey) (mem_list_objects_v2 hlisted)
          (congrArg Prod.fst hwrite)
        exact ⟨before, msg, after, hact, hsame.symm, ⟨hsupported, found, hfound, hresult, by simp [hwords], hstores⟩,
          hbefore⟩
  · rintro ⟨before, msg, after, hact, rfl, ⟨hsupported, found, hfound, hresult, -, hstores⟩, hbefore⟩
    obtain ⟨-, hsteady⟩ := h _ hact msg (by simp) hsupported
    obtain rfl := hsteady found hfound
    have hmem {write : Key × Content} (hwrite : write ∈ (handled config msg).1) :
        write ∈ acts.flatMap (Act.puts config) :=
      List.mem_flatMap.mpr ⟨_, hact, mem_puts.mpr ⟨before, msg, after, rfl, hwrite, hbefore⟩⟩
    refine List.cons_subset.mpr ⟨hmem ?_, List.cons_subset.mpr ⟨hmem ?_, List.nil_subset _⟩⟩
    · exact mem_handled.mpr ⟨hsupported, _, hfound, .inl ⟨by rw [hresult]; rfl, rfl⟩⟩
    · exact mem_handled.mpr ⟨hsupported, _, hfound, .inr ⟨hresult, hstores, _, htext _, rfl⟩⟩

theorem Storing.start (hpage : (bucket.keys.filter (config.s3_prefix.isPrefixOf ·)).length ≤ 1000) :
    Storing config result bucket [] (start config bucket) where
  stored := ⟨[], rfl, .refl _⟩
  proper messages hmessages := absurd hmessages List.not_mem_nil
  events key hkey _ := by
    rw [list_objects_v2, Store.page, List.take_of_length_le hpage]
    exact hkey

theorem Storing.invoke (h : Storing config result bucket acts s) {messages : List Delivery}
    (hdelivers : Delivers result s (.invoke messages)) :
    Storing config result bucket (acts ++ [.invoke messages]) (step config s (.invoke messages)) where
  stored := by
    obtain ⟨performed, hbucket, hperm⟩ := h.stored
    refine ⟨performed, hbucket, ?_⟩
    rw [List.flatMap_append, List.flatMap_singleton, step, List.flatten_cons]
    refine (List.Perm.append_left performed List.perm_append_comm).trans ?_
    rw [← List.append_assoc]
    exact hperm.append_right _
  proper other hother msg hmsg hsupported := by
    obtain hother | hother := List.mem_append.mp hother
    · exact h.proper other hother msg hmsg hsupported
    · obtain rfl := Act.invoke.inj (List.mem_singleton.mp hother)
      exact ⟨h.events _ (hdelivers msg hmsg).1 hsupported, (hdelivers msg hmsg).2⟩
  events := h.events

theorem Storing.put (h : Storing config result bucket acts s)
    (htext : ∀ key, words_concat (result key) = some (text key)) (invocation : ℕ) :
    Storing config result bucket (acts ++ [.put invocation]) (step config s (.put invocation)) := by
  have hacts : (acts ++ [Act.put invocation]).flatMap (Act.puts config) = acts.flatMap (Act.puts config) := by
    rw [List.flatMap_append, List.flatMap_singleton]
    exact List.append_nil _
  have hproper : Proper config result bucket (acts ++ [.put invocation]) := by
    intro messages hmessages
    obtain hmessages | hmessages := List.mem_append.mp hmessages
    · exact h.proper messages hmessages
    · cases List.mem_singleton.mp hmessages
  have houtputs := h.proper.subset_allWrites htext
  obtain ⟨⟨performed, hbucket, hperm⟩, -, hevents⟩ := h
  rw [step]
  split
  · next key content rest hrunning =>
    obtain ⟨hlt, hget⟩ := List.getElem?_eq_some_iff.mp hrunning
    obtain ⟨before, after, hsplit, -, hset⟩ : ∃ before after, s.running = before ++ s.running[invocation] :: after ∧
        before.length = invocation ∧ s.running.set invocation rest = before ++ rest :: after :=
      List.exists_of_set hlt
    rw [hget] at hsplit
    have hwrite : (key, content) ∈ allWrites config result text bucket := by
      apply houtputs
      apply hperm.subset
      rw [hsplit]
      simp
    refine ⟨⟨performed ++ [(key, content)], ?_, ?_⟩, hproper, ?_⟩
    · rw [Store.putAll_append, ← hbucket]
      rfl
    · rw [hacts]
      refine List.Perm.trans ?_ hperm
      change (performed ++ [(key, content)] ++ (s.running.set invocation rest).flatten).Perm _
      rw [hset, hsplit, List.append_assoc]
      refine List.Perm.append_left performed ?_
      simp only [List.flatten_append, List.flatten_cons, List.cons_append, List.nil_append]
      exact List.perm_middle.symm
    · intro other hother hsupported
      split_ifs at hother
      · obtain rfl | hother := List.mem_cons.mp hother
        · obtain ⟨key, -, -, hwrite⟩ := mem_allWrites.mp hwrite
          exact absurd hsupported (not_supported_of_mem_outputWrites hwrite)
        · exact hevents other hother hsupported
      · exact hevents other hother hsupported
  · exact ⟨⟨performed, hbucket, hacts.symm ▸ hperm⟩, hproper, hevents⟩

/-- The function and the script end with the same bucket exactly if each object is
delivered. -/
theorem agrees_with_script (htext : ∀ key, words_concat (result key) = some (text key))
    (hpage : (bucket.keys.filter (config.s3_prefix.isPrefixOf ·)).length ≤ 1000)
    (hnew : ∀ key ∈ list_objects_v2 bucket config.s3_prefix, supported key →
      outputs config key bucket = (none, none))
    (hrun : Along (step config) (Delivers result) (ocr_function.start config bucket) acts)
    (hfinished : (acts.foldl (step config) (ocr_function.start config bucket)).Finished) :
    (acts.foldl (step config) (ocr_function.start config bucket)).bucket =
        vision_ocr.process_input_objects config (scriptRun result) bucket ↔
      ∀ key ∈ list_objects_v2 bucket config.s3_prefix, supported key → Delivered acts key := by
  have hstoring : Storing config result bucket acts (acts.foldl (step config) (ocr_function.start config bucket)) := by
    refine hrun.traces (Storing.start hpage) fun before s act h hdelivers => ?_
    cases act with
    | invoke messages => exact h.invoke hdelivers
    | put invocation => exact h.put htext invocation
  obtain ⟨performed, hbucket, hperm⟩ := hstoring.stored
  rw [List.flatten_eq_nil_iff.mpr hfinished, List.append_nil] at hperm
  have hsubset : performed ⊆ allWrites config result text bucket :=
    List.Subset.trans hperm.subset (hstoring.proper.subset_allWrites htext)
  have hnone : ∀ write ∈ allWrites config result text bucket, bucket.get write.1 = none := by
    intro write hwrite
    obtain ⟨key, hkey, hsupported, hwrite⟩ := mem_allWrites.mp hwrite
    obtain ⟨hjson, hwords⟩ := Prod.mk.inj (hnew key hkey hsupported)
    simp only [outputWrites, List.mem_cons, List.not_mem_nil, or_false] at hwrite
    obtain rfl | rfl := hwrite
    · exact hjson
    · exact hwords
  rw [hbucket, script_eq htext fun key hkey hsupported => (Prod.mk.inj (hnew key hkey hsupported)).1,
    Store.putAll_eq_iff hsubset allWrites_injective hnone]
  constructor
  · intro hall key hkey hsupported
    refine (hstoring.proper.outputWrites_subset_iff htext hkey).mp fun write hwrite => ?_
    exact hperm.subset (hall (mem_allWrites.mpr ⟨key, hkey, hsupported, hwrite⟩))
  · intro hdelivered write hwrite
    obtain ⟨key, hkey, hsupported, hwrite⟩ := mem_allWrites.mp hwrite
    apply hperm.symm.subset
    exact (hstoring.proper.outputWrites_subset_iff htext hkey).mpr (hdelivered key hkey hsupported) hwrite

end runs

def template_config : Config :=
  ⟨"input".toList, "result".toList⟩

def template_bucket : Bucket :=
  (Store.empty.put "input/a.png".toList .other).put "input/b.pdf".toList .other

def template_result (_ : Key) : Json :=
  .object [("text", .string "word")]

def template_delivery (object_id : String) (putText : Put) : Delivery where
  object_id := object_id.toList
  calls := { post := fun _ => .json (template_result []), putText }

/-- The first invocation cannot store the text of the first object, which is
delivered again while that invocation is under way. -/
def delivered_again : List Act :=
  [.invoke [template_delivery "input/a.png" .clientError, template_delivery "input/b.pdf" .ok],
    .invoke [template_delivery "input/a.png" .ok], .put 1, .put 0, .put 0, .put 1, .put 1]

theorem agrees_with_script_template :
    (delivered_again.foldl (step template_config) (start template_config template_bucket)).bucket =
      vision_ocr.process_input_objects template_config (scriptRun template_result) template_bucket := by
  have hlisted : list_objects_v2 template_bucket template_config.s3_prefix =
      ["input/a.png".toList, "input/b.pdf".toList] := by decide
  have hdelivers (s : State) (hevents : s.events = ["input/a.png".toList, "input/b.pdf".toList]) (object_id : String)
      (hobject : object_id = "input/a.png" ∨ object_id = "input/b.pdf") (putText : Put) :
      (template_delivery object_id putText).object_id ∈ s.events ∧
        ∀ found, recognize (template_delivery object_id putText).calls (template_delivery object_id putText).object_id =
          some found → found = template_result (template_delivery object_id putText).object_id := by
    rw [hevents]
    obtain rfl | rfl := hobject
    · exact ⟨List.mem_cons_self, fun found hfound => (Option.some.inj hfound).symm⟩
    · exact ⟨List.mem_cons_of_mem _ List.mem_cons_self, fun found hfound => (Option.some.inj hfound).symm⟩
  have htext (key : Key) : words_concat (template_result key) = some ((fun _ => "word") key) := rfl
  refine (agrees_with_script htext (by decide) ?_ ?_ ?_).mpr ?_
  · rw [hlisted]
    intro key hkey _
    obtain rfl | hkey := List.mem_cons.mp hkey
    · rfl
    · obtain rfl := List.mem_singleton.mp hkey
      rfl
  · refine ⟨?_, ?_, trivial, trivial, trivial, trivial, trivial, trivial⟩
    · refine List.forall_mem_cons.mpr ⟨hdelivers _ (by decide) _ (.inl rfl) _, ?_⟩
      exact List.forall_mem_singleton.mpr (hdelivers _ (by decide) _ (.inr rfl) _)
    · exact List.forall_mem_singleton.mpr (hdelivers _ (by decide) _ (.inl rfl) _)
  · have hrunning :
        (delivered_again.foldl (step template_config) (start template_config template_bucket)).running = [[], []] := rfl
    rw [State.Finished, hrunning]
    simp
  · rw [hlisted]
    intro key hkey _
    obtain rfl | hkey := List.mem_cons.mp hkey
    · have hstores : (template_delivery "input/a.png" .ok).Stores :=
        ⟨by decide, _, rfl, rfl, by simp [htext], rfl⟩
      exact ⟨[], _, [], List.mem_cons_of_mem _ List.mem_cons_self, rfl, hstores, by simp⟩
    · obtain rfl := List.mem_singleton.mp hkey
      have hstores : (template_delivery "input/b.pdf" .ok).Stores :=
        ⟨by decide, _, rfl, rfl, by simp [htext], rfl⟩
      refine ⟨[template_delivery "input/a.png" .clientError], _, [], List.mem_cons_self, rfl, hstores, ?_⟩
      rw [List.forall_mem_singleton]
      intro hraises
      have hraised : (handled template_config (template_delivery "input/a.png" .clientError)).2 = true :=
        handled_raised.mpr hraises
      cases hraised

end solution_library.vision_ocr.ocr_function
