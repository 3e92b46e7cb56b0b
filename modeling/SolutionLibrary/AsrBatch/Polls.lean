import SolutionLibrary.AsrBatch.Completion

open solution_library.loop
open solution_library.object_storage
open solution_library.store

namespace solution_library.asr_batch

/-- The fields that are read of an operation are there. -/
structure JsonData.IsOperation (data : JsonData) : Prop where
  id : data.id.isSome
  done : data.done.isSome
  chunks : ∀ chunks, data.chunks = some chunks → (result_text chunks).isSome

/-- Every call of a run succeeds, each request for recognition creates an
operation, and each poll returns one. -/
structure RunCalls.Succeed (calls : RunCalls) : Prop where
  inputs : calls.inputs = .ok
  head : ∀ key, (calls.submit key).head = true
  presigned : ∀ key, (calls.submit key).presigned = .ok
  post : ∀ key, ∃ data id, (calls.submit key).post = .json data ∧ data.id = some id ∧ id ≠ ""
  put : ∀ key, (calls.submit key).put = .ok
  logs : calls.logs = .ok
  read : ∀ key, (calls.check key).read = .ok
  poll : ∀ key, ∃ result_data, (calls.check key).poll = .json result_data ∧ result_data.IsOperation
  putResult : ∀ key, (calls.check key).putResult = .ok
  putText : ∀ key, (calls.check key).putText = .ok
  putRecord : ∀ key, (calls.check key).putRecord = .ok

/-- The record of a log object has an operation, and is not done. -/
structure Waiting (bucket : Bucket) (key : Key) (id : String) : Prop where
  json : ".json".toList <:+ key
  record : ∃ data, bucket.get key = some (.json data) ∧ data.id = some id ∧ data.done ≠ some true
  id : id ≠ ""

/-- What is read of a record is missing. -/
def Content.malformed : Content → Bool
  | .json data => data.id = none ∨ data.id ≠ some "" ∧ data.done = none
  | .text _ | .other => true

/-- Reading the record of a log object raises. -/
def unreadable (bucket : Bucket) (key : Key) : Bool :=
  ".json".toList.isSuffixOf key && (bucket.get key).any Content.malformed

/-- The operation of a pending record. -/
def pending_id (bucket : Bucket) (key : Key) : Option String :=
  if ".json".toList.isSuffixOf key then
    match bucket.get key with
    | some (.json data) => if data.done = some false ∧ data.id ≠ some "" then data.id else none
    | _ => none
  else none

/-- A poll finds the operation finished. -/
def CheckCalls.Finishes (calls : CheckCalls) : Prop :=
  ∃ result_data, calls.poll = .json result_data ∧ result_data.done = some true

/-- The pending operation of a record is finished, and its result is written to
another key. -/
structure Overwrites (config : Config) (calls : RunCalls) (bucket : Bucket) (key other : Key) : Prop where
  pending : ∃ id, Pending bucket key id
  finishes : (calls.check key).Finishes
  result : result_key config key = other

section logs

variable {config : Config} {calls : RunCalls} {w : World} {key other : Key} {id : String}

theorem pending_id_eq_some_iff {bucket : Bucket} : pending_id bucket key = some id ↔ Pending bucket key id := by
  unfold pending_id
  constructor
  · intro h
    split at h
    · next hjson =>
      split at h
      · next data hdata =>
        split at h
        · next hpending =>
          refine ⟨List.isSuffixOf_iff_suffix.mp hjson, ⟨data, hdata, h, hpending.1⟩, ?_⟩
          rintro rfl
          exact hpending.2 h
        · cases h
      · cases h
    · cases h
  · rintro ⟨hjson, ⟨data, hdata, hid, hdone⟩, hne⟩
    rw [if_pos (List.isSuffixOf_iff_suffix.mpr hjson)]
    simp [hdata, hid, hdone, hne]

theorem RunCalls.Succeed.write_results_raised (h : calls.Succeed) {result_data : JsonData}
    (hdata : result_data.IsOperation) : (write_results config (calls.check key) w key id result_data).2 = false := by
  have hdone (s : World) : (write_done (calls.check key) s key id).2 = false := by
    rw [write_done, h.putRecord]
  rw [write_results, h.putResult, h.putText]
  cases hchunks : result_data.chunks with
  | none => exact hdone _
  | some chunks =>
    obtain ⟨text, htext⟩ := Option.isSome_iff_exists.mp (hdata.chunks chunks hchunks)
    simp only [htext]
    exact hdone _

theorem RunCalls.Succeed.operation (h : calls.Succeed) (config : Config) (w : World) (key : Key) (id : String) :
    (check_operation config (calls.check key) w key id).2 = false ∧
      (check_operation config (calls.check key) w key id).1.polled =
        w.polled ++ [(key, id, (calls.check key).poll)] := by
  obtain ⟨result_data, hpoll, hdata⟩ := h.poll key
  rw [check_operation, hpoll]
  obtain ⟨done, hdone⟩ := Option.isSome_iff_exists.mp hdata.done
  simp only [hdone]
  cases done with
  | true => exact ⟨h.write_results_raised hdata, polled_write_results⟩
  | false => exact ⟨by simpa using Option.isSome_iff_ne_none.mp hdata.id, rfl⟩

/-- Only an unreadable record raises, and a pending one is polled. -/
theorem RunCalls.Succeed.checked (h : calls.Succeed) (config : Config) (w : World) (key : Key) :
    (check_processing_object config calls.check w key).2 = unreadable w.bucket key ∧
      (check_processing_object config calls.check w key).1.polled =
        w.polled ++ ((pending_id w.bucket key).map fun id => (key, id, (calls.check key).poll)).toList := by
  rw [check_processing_object, unreadable, pending_id, h.read]
  cases hjson : ".json".toList.isSuffixOf key with
  | false => simp
  | true =>
    cases hcontent : w.bucket.get key with
    | none => simp
    | some content =>
      cases content with
      | text | other => simp [Content.malformed]
      | json data =>
        cases hid : data.id with
        | none => simp [Content.malformed, hid]
        | some id =>
          by_cases hne : id = ""
          · simp [Content.malformed, hid, hne]
          · cases hdone : data.done with
            | none => simp [Content.malformed, hid, hne, hdone]
            | some done =>
              cases done with
              | true => simp [Content.malformed, hid, hne, hdone]
              | false =>
                have hoperation := h.operation config w key id
                simp [Content.malformed, hid, hne, hdone, hoperation]

theorem pending_id_of_unreadable {bucket : Bucket} (h : unreadable bucket key = true) :
    pending_id bucket key = none := by
  rw [Option.eq_none_iff_forall_ne_some]
  rintro id hid
  obtain ⟨hjson, ⟨data, hdata, hid, hdone⟩, hne⟩ := pending_id_eq_some_iff.mp hid
  simp [unreadable, hdata, Content.malformed, hid, hdone] at h

/-- The polls of a loop over log objects. -/
def polls (config : Config) (calls : RunCalls) (w : World) : List Key → List (Key × String × Answer)
  | [] => []
  | key :: keys =>
    if unreadable w.bucket key then []
    else ((pending_id w.bucket key).map fun id => (key, id, (calls.check key).poll)).toList ++
      polls config calls (check_processing_object config calls.check w key).1 keys

theorem RunCalls.Succeed.forEach_check (h : calls.Succeed) (config : Config) (w : World) (keys : List Key) :
    (forEach (check_processing_object config calls.check) w keys).1.polled = w.polled ++ polls config calls w keys := by
  induction keys generalizing w with
  | nil => simp [forEach, polls]
  | cons key keys ih =>
    obtain ⟨hraised, hpolled⟩ := h.checked config w key
    rw [polls]
    cases hread : unreadable w.bucket key with
    | true =>
      rw [forEach_cons_of_raised (hraised.trans hread), hpolled, pending_id_of_unreadable hread]
      rfl
    | false =>
      rw [forEach_cons (hraised.trans hread), ih, hpolled, List.append_assoc]
      rfl

theorem polls_of_unreadable (hread : unreadable w.bucket key = true) (keys : List Key) :
    polls config calls w (key :: keys) = [] := by
  rw [polls, if_pos hread]

theorem mem_polls_cons (hread : unreadable w.bucket other = false) {keys : List Key} :
    (∃ answer, (key, id, answer) ∈ polls config calls w (other :: keys)) ↔
      key = other ∧ Pending w.bucket other id ∨
        ∃ answer, (key, id, answer) ∈
          polls config calls (check_processing_object config calls.check w other).1 keys := by
  rw [polls, hread, ← pending_id_eq_some_iff]
  simp only [Bool.false_eq_true, if_false, List.mem_append, Option.mem_toList, Option.map_eq_some_iff, Prod.mk.injEq]
  constructor
  · rintro ⟨answer, ⟨id, hid, rfl, rfl, _⟩ | hmem⟩
    · exact .inl ⟨rfl, hid⟩
    · exact .inr ⟨answer, hmem⟩
  · rintro (⟨rfl, hid⟩ | ⟨answer, hmem⟩)
    · exact ⟨_, .inl ⟨id, hid, rfl, rfl, rfl⟩⟩
    · exact ⟨answer, .inr hmem⟩

theorem mem_of_mem_polls {keys : List Key} (h : ∃ answer, (key, id, answer) ∈ polls config calls w keys) :
    key ∈ keys := by
  induction keys generalizing w with
  | nil =>
    obtain ⟨_, hmem⟩ := h
    cases hmem
  | cons other keys ih =>
    cases hread : unreadable w.bucket other with
    | true =>
      obtain ⟨_, hmem⟩ := h
      rw [polls_of_unreadable hread] at hmem
      cases hmem
    | false =>
      obtain ⟨rfl, _⟩ | hpolled := (mem_polls_cons hread).mp h
      · exact List.mem_cons_self
      · exact List.mem_cons_of_mem _ (ih hpolled)

/-- A record that is not done is pending when it can be read. -/
theorem pending_iff {bucket : Bucket} :
    Pending bucket key id ↔ Waiting bucket key id ∧ unreadable bucket key = false := by
  constructor
  · rintro ⟨hjson, ⟨data, hdata, hid, hdone⟩, hne⟩
    refine ⟨⟨hjson, ⟨data, hdata, hid, by simp [hdone]⟩, hne⟩, ?_⟩
    simp [unreadable, hdata, Content.malformed, hid, hdone]
  · rintro ⟨⟨hjson, ⟨data, hdata, hid, hdone⟩, hne⟩, hread⟩
    refine ⟨hjson, ⟨data, hdata, hid, ?_⟩, hne⟩
    cases hvalue : data.done with
    | none =>
      rw [unreadable, List.isSuffixOf_iff_suffix.mpr hjson, hdata] at hread
      simp [Content.malformed, hid, hvalue, hne] at hread
    | some done =>
      cases done with
      | true => exact absurd hvalue hdone
      | false => rfl

end logs

section overwritten

variable {config : Config} {calls : RunCalls} {w : World} {key other : Key} {id : String} {keys : List Key}

theorem RunCalls.Succeed.check_of_pending (h : calls.Succeed) (hpending : Pending w.bucket key id) :
    check_processing_object config calls.check w key = check_operation config (calls.check key) w key id := by
  obtain ⟨hjson, ⟨data, hdata, hid, hdone⟩, hne⟩ := hpending
  rw [check_processing_object, if_neg (not_not_intro (List.isSuffixOf_iff_suffix.mpr hjson)), h.read, hdata]
  simp [hid, hdone, hne]

theorem RunCalls.Succeed.get_write_results (h : calls.Succeed) {result_data : JsonData}
    (hdata : result_data.IsOperation) (hne : result_key config key ≠ key)
    (hjson : ".json".toList <:+ result_key config key) :
    (write_results config (calls.check key) w key id result_data).1.bucket.get (result_key config key) =
      some (.json result_data) := by
  have hdone {s : World} (hs : s.bucket.get (result_key config key) = some (.json result_data)) :
      (write_done (calls.check key) s key id).1.bucket.get (result_key config key) = some (.json result_data) := by
    rw [write_done, World.get_write_of_ne _ _ _ hne, hs]
  rw [write_results, h.putResult, h.putText]
  cases hchunks : result_data.chunks with
  | none => exact hdone (World.get_write_ok _ _ _)
  | some chunks =>
    obtain ⟨text, htext⟩ := Option.isSome_iff_exists.mp (hdata.chunks chunks hchunks)
    simp only [htext]
    apply hdone
    rw [World.get_write_of_ne _ _ _ (ne_result_text_key hjson key), World.get_write_ok]

/-- The body of the second loop leaves another record as it is, or overwrites it with
a result. -/
theorem RunCalls.Succeed.get_check (h : calls.Succeed) (hne : other ≠ key) (hjson : ".json".toList <:+ other) :
    (Overwrites config calls w.bucket key other ∧ ∃ data : JsonData, data.id.isSome ∧ data.done = some true ∧
        (check_processing_object config calls.check w key).1.bucket.get other = some (.json data)) ∨
      ¬ Overwrites config calls w.bucket key other ∧
        (check_processing_object config calls.check w key).1.bucket.get other = w.bucket.get other := by
  by_cases hover : Overwrites config calls w.bucket key other
  · obtain ⟨⟨id, hpending⟩, ⟨result_data, hpoll, hdone⟩, rfl⟩ := hover
    obtain ⟨data, hdata, hoperation⟩ := h.poll key
    cases hpoll.symm.trans hdata
    refine .inl ⟨⟨⟨id, hpending⟩, ⟨result_data, hpoll, hdone⟩, rfl⟩, result_data, hoperation.id, hdone, ?_⟩
    rw [h.check_of_pending hpending, check_operation, hpoll]
    simp only [hdone]
    exact h.get_write_results hoperation hne hjson
  · refine .inr ⟨hover, ?_⟩
    obtain ⟨raised, hsame⟩ | ⟨id, hpending, hpolled⟩ := check_processing_object_cases config calls.check w key
    · rw [hsame]
    rw [hpolled]
    obtain ⟨raised, hsame⟩ | ⟨result_data, hpoll, hdone, hfinished⟩ :=
      check_operation_cases config (calls.check key) w key id
    · rw [hsame]
    · rw [hfinished]
      have hresult : other ≠ result_key config key := fun heq =>
        hover ⟨⟨id, hpending⟩, ⟨result_data, hpoll, hdone⟩, heq.symm⟩
      exact write_results_frame _ _ key id result_data hne hresult (ne_result_text_key hjson key)

/-- What is true of no result is true of another record after an iteration when it was
before, and the record is not overwritten. -/
theorem RunCalls.Succeed.of_check_iff (h : calls.Succeed) (config : Config) (w : World)
    (property : Option Content → Prop)
    (hresult : ∀ data : JsonData, data.id.isSome → data.done = some true → ¬ property (some (.json data)))
    (hne : other ≠ key) (hjson : ".json".toList <:+ other) :
    property ((check_processing_object config calls.check w key).1.bucket.get other) ↔
      property (w.bucket.get other) ∧ ¬ Overwrites config calls w.bucket key other := by
  obtain ⟨hover, data, hid, hdone, hget⟩ | ⟨hnot, hsame⟩ := h.get_check hne hjson
  · rw [hget]
    exact iff_of_false (hresult data hid hdone) fun hproperty => hproperty.2 hover
  · rw [hsame]
    exact (and_iff_left hnot).symm

theorem RunCalls.Succeed.waiting_check_iff (h : calls.Succeed) (hne : other ≠ key) :
    Waiting (check_processing_object config calls.check w key).1.bucket other id ↔
      Waiting w.bucket other id ∧ ¬ Overwrites config calls w.bucket key other := by
  have hiff := h.of_check_iff config w
    (fun content => ∃ data, content = some (.json data) ∧ data.id = some id ∧ data.done ≠ some true) (by grind) hne
  constructor
  · rintro ⟨hjson, hrecord, hid⟩
    obtain ⟨hrecord, hnot⟩ := (hiff hjson).mp hrecord
    exact ⟨⟨hjson, hrecord, hid⟩, hnot⟩
  · rintro ⟨⟨hjson, hrecord, hid⟩, hnot⟩
    exact ⟨hjson, (hiff hjson).mpr ⟨hrecord, hnot⟩, hid⟩

theorem RunCalls.Succeed.unreadable_check_iff (h : calls.Succeed) (hne : other ≠ key) :
    unreadable (check_processing_object config calls.check w key).1.bucket other = true ↔
      unreadable w.bucket other = true ∧ ¬ Overwrites config calls w.bucket key other := by
  by_cases hjson : ".json".toList <:+ other
  · have hsuffix := List.isSuffixOf_iff_suffix.mpr hjson
    simp only [unreadable, hsuffix, Bool.true_and]
    refine h.of_check_iff config w (fun content => content.any Content.malformed = true)
      (fun data hid hdone => ?_) hne hjson
    simp [Content.malformed, Option.isSome_iff_ne_none.mp hid, hdone]
  · have hsuffix : ".json".toList.isSuffixOf other = false := by
      rwa [← Bool.not_eq_true, List.isSuffixOf_iff_suffix]
    simp only [unreadable, hsuffix, Bool.false_and]
    exact iff_of_false (by simp) fun h => absurd h.1 (by simp)

theorem RunCalls.Succeed.pending_check_iff (h : calls.Succeed) (hne : other ≠ key) :
    Pending (check_processing_object config calls.check w key).1.bucket other id ↔
      Pending w.bucket other id ∧ ¬ Overwrites config calls w.bucket key other := by
  rw [pending_iff, pending_iff, h.waiting_check_iff hne, ← Bool.not_eq_true, ← Bool.not_eq_true,
    h.unreadable_check_iff hne]
  tauto

theorem RunCalls.Succeed.overwrites_check_iff (h : calls.Succeed) {first : Key} (hne : first ≠ key) :
    Overwrites config calls (check_processing_object config calls.check w key).1.bucket first other ↔
      Overwrites config calls w.bucket first other ∧ ¬ Overwrites config calls w.bucket key first := by
  constructor
  · rintro ⟨⟨id, hpending⟩, hfinishes, hresult⟩
    obtain ⟨hpending, hnot⟩ := (h.pending_check_iff hne).mp hpending
    exact ⟨⟨⟨id, hpending⟩, hfinishes, hresult⟩, hnot⟩
  · rintro ⟨⟨⟨id, hpending⟩, hfinishes, hresult⟩, hnot⟩
    exact ⟨⟨id, (h.pending_check_iff hne).mpr ⟨hpending, hnot⟩⟩, hfinishes, hresult⟩

/-- Every record that is not done is polled by a loop over these log objects. -/
def PollsAll (config : Config) (calls : RunCalls) (w : World) (keys : List Key) : Prop :=
  ∀ key ∈ keys, ∀ id, Waiting w.bucket key id → ∃ answer, (key, id, answer) ∈ polls config calls w keys

/-- A log object is overwritten by the result of one of these before it. -/
def OverwrittenIn (config : Config) (calls : RunCalls) (bucket : Bucket) (keys : List Key) (key : Key) : Prop :=
  ∃ first ∈ keys, first < key ∧ Overwrites config calls bucket first key

/-- A loop over these log objects comes to every record that is not done, and reads it
as it is in the bucket. -/
def SeesAll (config : Config) (calls : RunCalls) (bucket : Bucket) (keys : List Key) : Prop :=
  ∀ key ∈ keys, ∀ id, Waiting bucket key id → ¬ OverwrittenIn config calls bucket keys key ∧
    ∀ other ∈ keys, other ≤ key → unreadable bucket other = true → OverwrittenIn config calls bucket keys other

/-- The first iteration overwrites no record that is not done. -/
def SparesAll (config : Config) (calls : RunCalls) (bucket : Bucket) (first : Key) (keys : List Key) : Prop :=
  ∀ key ∈ keys, ∀ id, Waiting bucket key id → ¬ Overwrites config calls bucket first key

theorem RunCalls.Succeed.pending_of_mem_polls (h : calls.Succeed) (hsorted : keys.Pairwise (· < ·))
    (hpolled : ∃ answer, (key, id, answer) ∈ polls config calls w keys) : Pending w.bucket key id := by
  induction keys generalizing w with
  | nil =>
    obtain ⟨_, hmem⟩ := hpolled
    cases hmem
  | cons first keys ih =>
    obtain ⟨hlt, hsorted⟩ := List.pairwise_cons.mp hsorted
    cases hread : unreadable w.bucket first with
    | true =>
      obtain ⟨_, hmem⟩ := hpolled
      rw [polls_of_unreadable hread] at hmem
      cases hmem
    | false =>
      obtain ⟨rfl, hpending⟩ | hrest := (mem_polls_cons hread).mp hpolled
      · exact hpending
      · exact ((h.pending_check_iff (hlt _ (mem_of_mem_polls hrest)).ne').mp (ih hsorted hrest)).1

theorem RunCalls.Succeed.pollsAll_cons_iff (h : calls.Succeed) (hsorted : (key :: keys).Pairwise (· < ·))
    (hread : unreadable w.bucket key = false) :
    PollsAll config calls w (key :: keys) ↔ SparesAll config calls w.bucket key keys ∧
      PollsAll config calls (check_processing_object config calls.check w key).1 keys := by
  obtain ⟨hlt, hsorted⟩ := List.pairwise_cons.mp hsorted
  have hrest {other : Key} {id : String} (hother : other ∈ keys)
      (hpolled : ∃ answer, (other, id, answer) ∈ polls config calls w (key :: keys)) :
      ∃ answer, (other, id, answer) ∈ polls config calls (check_processing_object config calls.check w key).1 keys := by
    obtain ⟨rfl, _⟩ | hpolled := (mem_polls_cons hread).mp hpolled
    · exact absurd (hlt _ hother) (lt_irrefl _)
    · exact hpolled
  constructor
  · intro hall
    refine ⟨fun other hother id hwaiting => ?_, fun other hother id hwaiting => ?_⟩
    · have hpolled := hrest hother (hall other (List.mem_cons_of_mem _ hother) id hwaiting)
      have hpending := h.pending_of_mem_polls hsorted hpolled
      exact ((h.pending_check_iff (hlt other hother).ne').mp hpending).2
    · have hbefore := ((h.waiting_check_iff (hlt other hother).ne').mp hwaiting).1
      exact hrest hother (hall other (List.mem_cons_of_mem _ hother) id hbefore)
  · rintro ⟨hspares, hall⟩ other hother id hwaiting
    apply (mem_polls_cons hread).mpr
    obtain rfl | hother := List.mem_cons.mp hother
    · exact .inl ⟨rfl, pending_iff.mpr ⟨hwaiting, hread⟩⟩
    · refine .inr (hall other hother id ?_)
      exact (h.waiting_check_iff (hlt other hother).ne').mpr ⟨hwaiting, hspares other hother id hwaiting⟩

theorem RunCalls.Succeed.seesAll_cons_iff (h : calls.Succeed) (hsorted : (key :: keys).Pairwise (· < ·))
    (hread : unreadable w.bucket key = false) :
    SeesAll config calls w.bucket (key :: keys) ↔ SparesAll config calls w.bucket key keys ∧
      SeesAll config calls (check_processing_object config calls.check w key).1.bucket keys := by
  obtain ⟨hlt, -⟩ := List.pairwise_cons.mp hsorted
  have hne {other : Key} (hother : other ∈ keys) : other ≠ key := (hlt other hother).ne'
  have hmin := Store.le_of_mem_sorted_cons hsorted
  -- after the first iteration the spared records overwrite what they did before
  have hoverwritten (hspares : SparesAll config calls w.bucket key keys) (other : Key) (hother : other ∈ keys) :
      OverwrittenIn config calls w.bucket (key :: keys) other ↔ Overwrites config calls w.bucket key other ∨
        OverwrittenIn config calls (check_processing_object config calls.check w key).1.bucket keys other := by
    constructor
    · rintro ⟨first, hfirst, hfirstLt, hover⟩
      obtain rfl | hfirst := List.mem_cons.mp hfirst
      · exact .inl hover
      · obtain ⟨id, hpending⟩ := hover.pending
        have hspared := hspares first hfirst id (pending_iff.mp hpending).1
        exact .inr ⟨first, hfirst, hfirstLt, (h.overwrites_check_iff (hne hfirst)).mpr ⟨hover, hspared⟩⟩
    · rintro (hover | ⟨first, hfirst, hfirstLt, hover⟩)
      · exact ⟨key, List.mem_cons_self, hlt other hother, hover⟩
      · exact ⟨first, List.mem_cons_of_mem _ hfirst, hfirstLt, ((h.overwrites_check_iff (hne hfirst)).mp hover).1⟩
  constructor
  · intro hsees
    have hspares : SparesAll config calls w.bucket key keys := fun other hother id hwaiting hover =>
      (hsees other (List.mem_cons_of_mem _ hother) id hwaiting).1 ⟨key, List.mem_cons_self, hlt other hother, hover⟩
    refine ⟨hspares, fun other hother id hwaiting => ?_⟩
    obtain ⟨hwaiting, -⟩ := (h.waiting_check_iff (hne hother)).mp hwaiting
    obtain ⟨hkept, hreadable⟩ := hsees other (List.mem_cons_of_mem _ hother) id hwaiting
    refine ⟨fun hover => hkept ((hoverwritten hspares other hother).mpr (.inr hover)),
      fun before hbefore hle hunread => ?_⟩
    obtain ⟨hunread, hnot⟩ := (h.unreadable_check_iff (hne hbefore)).mp hunread
    have hover := hreadable before (List.mem_cons_of_mem _ hbefore) hle hunread
    exact ((hoverwritten hspares before hbefore).mp hover).resolve_left hnot
  · rintro ⟨hspares, hsees⟩ other hother id hwaiting
    obtain rfl | hother := List.mem_cons.mp hother
    · refine ⟨?_, fun before hbefore hle hunread => ?_⟩
      · rintro ⟨first, hfirst, hfirstLt, -⟩
        exact (hmin first hfirst).not_gt hfirstLt
      · rw [hle.antisymm (hmin before hbefore), hread] at hunread
        cases hunread
    · have hspared := hspares other hother id hwaiting
      obtain ⟨hkept, hreadable⟩ := hsees other hother id ((h.waiting_check_iff (hne hother)).mpr ⟨hwaiting, hspared⟩)
      refine ⟨fun hover => ?_, fun before hbefore hle hunread => ?_⟩
      · exact ((hoverwritten hspares other hother).mp hover).elim hspared hkept
      · obtain rfl | hbefore := List.mem_cons.mp hbefore
        · rw [hread] at hunread
          cases hunread
        · refine (hoverwritten hspares before hbefore).mpr (or_iff_not_imp_left.mpr fun hnot => ?_)
          exact hreadable before hbefore hle ((h.unreadable_check_iff (hne hbefore)).mpr ⟨hunread, hnot⟩)

/-- A loop polls every record that is not done exactly when it sees all of them. -/
theorem RunCalls.Succeed.pollsAll_iff (h : calls.Succeed) (hsorted : keys.Pairwise (· < ·)) :
    PollsAll config calls w keys ↔ SeesAll config calls w.bucket keys := by
  induction keys generalizing w with
  | nil => simp [PollsAll, SeesAll]
  | cons key keys ih =>
    cases hread : unreadable w.bucket key with
    | false =>
      rw [h.pollsAll_cons_iff hsorted hread, h.seesAll_cons_iff hsorted hread, ih (List.pairwise_cons.mp hsorted).2]
    | true =>
      -- the loop ends here: nothing is polled, so nothing may wait
      constructor
      · intro hall other hother id hwaiting
        obtain ⟨answer, hmem⟩ := hall other hother id hwaiting
        rw [polls_of_unreadable hread] at hmem
        cases hmem
      · intro hsees other hother id hwaiting
        have hmin := Store.le_of_mem_sorted_cons hsorted
        obtain ⟨first, hfirst, hfirstLt, -⟩ :=
          (hsees other hother id hwaiting).2 key List.mem_cons_self (hmin other hother) hread
        exact absurd hfirstLt (hmin first hfirst).not_gt

end overwritten

end solution_library.asr_batch
