import Mathlib.Data.List.Perm.Subperm
import SolutionLibrary.AsrBatch.Polls
import SolutionLibrary.AsrBatch.Submission

open solution_library.loop
open solution_library.object_storage
open solution_library.store

namespace solution_library.asr_batch

/-- The operation that is created for an input. -/
def created (calls : RunCalls) (key : Key) : JsonData :=
  match (calls.submit key).post with
  | .json data => data
  | _ => {}

/-- An input that has to be submitted: its suffix is supported, and it has no log
object. -/
def Unsubmitted (config : Config) (bucket : Bucket) (key : Key) : Prop :=
  supported key ∧ ¬ Recorded config bucket key

instance (config : Config) (bucket : Bucket) (key : Key) : Decidable (Unsubmitted config bucket key) :=
  inferInstanceAs (Decidable (_ ∧ _))

/-- The inputs to submit that one listing shows. -/
def new_inputs (config : Config) (bucket : Bucket) : List Key :=
  (list_objects_v2 bucket config.s3_prefix).filter (Unsubmitted config bucket ·)

/-- The bucket with the log objects for new operations. -/
def withRecords (config : Config) (calls : RunCalls) (bucket : Bucket) (inputs : List Key) : Bucket :=
  inputs.foldl (fun bucket key => bucket.put (key_process config key) (.json (created calls key))) bucket

/-- A run submits every input that has to be submitted, and polls the operation of
every record that is not done. -/
structure Complete (config : Config) (calls : RunCalls) (w : World) : Prop where
  submits : ∀ key ∈ w.bucket.keys, config.s3_prefix <+: key → Unsubmitted config w.bucket key →
    key ∈ sentIn config calls w
  polls : ∀ key id, config.s3_prefix_log <+: key →
    Waiting (process_input_objects config calls.inputs calls.submit w).1.bucket key id →
      ∃ answer, (key, id, answer) ∈ (main config calls w).polled.drop w.polled.length

/-- A log object is overwritten by the result of one before it. -/
def Overwritten (config : Config) (calls : RunCalls) (bucket : Bucket) (key : Key) : Prop :=
  ∃ first, config.s3_prefix_log <+: first ∧ first < key ∧ Overwrites config calls bucket first key

/-- The second loop comes to a record, and reads it as it is in the bucket. -/
structure Seen (config : Config) (calls : RunCalls) (bucket : Bucket) (key : Key) : Prop where
  page : OnFirstPage bucket config.s3_prefix_log key
  kept : ¬ Overwritten config calls bucket key
  readable : ∀ other, config.s3_prefix_log <+: other → other ≤ key → unreadable bucket other = true →
    Overwritten config calls bucket other

/-- The first page of the inputs shows all that have to be submitted, and every
record that is not done, those of the new operations included, is seen. -/
structure Visible (config : Config) (calls : RunCalls) (bucket : Bucket) : Prop where
  inputs : ∀ key ∈ bucket.keys, config.s3_prefix <+: key → Unsubmitted config bucket key →
    OnFirstPage bucket config.s3_prefix key
  logs : ∀ key id, config.s3_prefix_log <+: key →
    Waiting (withRecords config calls bucket (new_inputs config bucket)) key id →
      Seen config calls (withRecords config calls bucket (new_inputs config bucket)) key

section inputs

variable {config : Config} {calls : RunCalls} {w : World} {key : Key}

theorem RunCalls.Succeed.process_of_unsubmitted (h : calls.Succeed) (hkey : Unsubmitted config w.bucket key) :
    process_input_object config calls.submit w key =
      ({ w with
          bucket := w.bucket.put (key_process config key) (.json (created calls key))
          sent := w.sent ++ [key] }, false) := by
  obtain ⟨data, id, hpost, hid, hne⟩ := h.post key
  have hsends : Sends config calls.submit w key := by
    refine ⟨hkey.1, fun hfound => hkey.2 hfound.1, ?_⟩
    rw [h.presigned key]
    decide
  have hcreated : create_recognition_task (calls.submit key).post = some (some (created calls key)) := by
    simp [create_recognition_task, created, hpost, hid, hne]
  rw [process_input_object_of_sends hsends, submit_input_object]
  simp [hcreated, write_process_status, World.write, Put.store, Put.stores, h.put key]

theorem RunCalls.Succeed.process_of_not_unsubmitted (h : calls.Succeed) (hkey : ¬ Unsubmitted config w.bucket key) :
    process_input_object config calls.submit w key = (w, false) := by
  rw [process_input_object]
  by_cases hsupported : supported key
  · have hrecorded : Recorded config w.bucket key := by
      by_contra hnot
      exact hkey ⟨hsupported, hnot⟩
    rw [if_neg (not_not_intro hsupported), if_pos ⟨hrecorded, h.head key⟩]
  · rw [if_pos hsupported]

/-- The iterations of the first loop do not change what the later ones find. -/
theorem RunCalls.Succeed.forEach_process (h : calls.Succeed) (bucket : Bucket) {keys : List Key} (hnodup : keys.Nodup)
    (hkeys : ∀ key ∈ keys, config.s3_prefix <+: key)
    (hsame : ∀ key ∈ keys, w.bucket.get (key_process config key) = bucket.get (key_process config key)) :
    forEach (process_input_object config calls.submit) w keys =
      ({ w with
          bucket := withRecords config calls w.bucket (keys.filter (Unsubmitted config bucket ·))
          sent := w.sent ++ keys.filter (Unsubmitted config bucket ·) }, false) := by
  induction keys generalizing w with
  | nil => simp [forEach, withRecords]
  | cons key keys ih =>
    obtain ⟨hkey, hrest⟩ := List.forall_mem_cons.mp hkeys
    obtain ⟨hkeySame, hrestSame⟩ := List.forall_mem_cons.mp hsame
    have hiff : Unsubmitted config w.bucket key ↔ Unsubmitted config bucket key := by
      simp only [Unsubmitted, Recorded, hkeySame]
    by_cases hnew : Unsubmitted config bucket key
    · have hprocess := h.process_of_unsubmitted (hiff.mpr hnew)
      have hraised := congrArg Prod.snd hprocess
      rw [forEach_cons hraised, hprocess, ih (List.nodup_cons.mp hnodup).2 hrest ?_, List.filter_cons_of_pos (by simpa)]
      · simp [withRecords]
      · intro other hother
        have hne : key_process config other ≠ key_process config key := by
          intro heq
          exact (List.nodup_cons.mp hnodup).1 (key_process_inj (hrest other hother) hkey heq ▸ hother)
        rw [Store.get_put_of_ne _ _ hne, hrestSame other hother]
    · have hprocess := h.process_of_not_unsubmitted (mt hiff.mp hnew)
      have hraised := congrArg Prod.snd hprocess
      rw [forEach_cons hraised, hprocess, ih (List.nodup_cons.mp hnodup).2 hrest hrestSame,
        List.filter_cons_of_neg (by simpa)]

/-- The first loop submits what the listing shows, and records it. -/
theorem RunCalls.Succeed.processed (h : calls.Succeed) (config : Config) (w : World) :
    process_input_objects config calls.inputs calls.submit w =
      ({ w with
          bucket := withRecords config calls w.bucket (new_inputs config w.bucket)
          sent := w.sent ++ new_inputs config w.bucket }, false) := by
  rw [h.inputs]
  exact h.forEach_process w.bucket (nodup_list_objects_v2 _ _) (fun key hkey => mem_list_objects_v2 hkey)
    fun _ _ => rfl

theorem RunCalls.Succeed.sentIn_eq (h : calls.Succeed) (config : Config) (w : World) :
    sentIn config calls w = new_inputs config w.bucket := by
  rw [sentIn, sent_main, h.processed, List.drop_left]

end inputs

section logs

variable {config : Config} {calls : RunCalls} {w : World} {key : Key} {id : String}

/-- What a run polls. -/
theorem RunCalls.Succeed.polled_main (h : calls.Succeed) (config : Config) (w : World) :
    (main config calls w).polled.drop w.polled.length =
      polls config calls (process_input_objects config calls.inputs calls.submit w).1
        (list_objects_v2 (process_input_objects config calls.inputs calls.submit w).1.bucket config.s3_prefix_log) := by
  rw [main, h.processed config w]
  simp only [check_processing_objects, h.logs]
  rw [h.forEach_check, List.drop_left]

theorem overwrittenIn_page_iff {bucket : Bucket} (hpage : OnFirstPage bucket config.s3_prefix_log key) :
    OverwrittenIn config calls bucket (list_objects_v2 bucket config.s3_prefix_log) key ↔
      Overwritten config calls bucket key := by
  constructor
  · rintro ⟨first, hfirst, hlt, hover⟩
    exact ⟨first, mem_list_objects_v2 hfirst, hlt, hover⟩
  · rintro ⟨first, hfirst, hlt, hover⟩
    obtain ⟨id, _, ⟨data, hdata, _⟩, _⟩ := hover.pending
    have hmem : first ∈ bucket.keys := Store.mem_keys_iff.mpr ⟨_, hdata⟩
    exact ⟨first, mem_list_objects_v2_iff.mpr ⟨⟨hmem, hfirst⟩, hpage.mono hlt.le⟩, hlt, hover⟩

theorem mem_keys_of_unreadable {bucket : Bucket} (h : unreadable bucket key = true) : key ∈ bucket.keys := by
  cases hget : bucket.get key with
  | none => simp [unreadable, hget] at h
  | some content => exact Store.mem_keys_iff.mpr ⟨content, hget⟩

/-- A loop over the first page polls every record that is not done exactly when it
sees all of them. -/
theorem RunCalls.Succeed.polls_page_iff (h : calls.Succeed) (config : Config) (w : World) :
    (∀ key id, config.s3_prefix_log <+: key → Waiting w.bucket key id →
      ∃ answer, (key, id, answer) ∈ polls config calls w (list_objects_v2 w.bucket config.s3_prefix_log)) ↔
      ∀ key id, config.s3_prefix_log <+: key → Waiting w.bucket key id → Seen config calls w.bucket key := by
  have hsorted := sorted_list_objects_v2 w.bucket config.s3_prefix_log
  constructor
  · intro hall key id hkey hwaiting
    have hsees := (h.pollsAll_iff hsorted).mp fun key hmem id hwaiting =>
      hall key id (mem_list_objects_v2 hmem) hwaiting
    have hmem := mem_of_mem_polls (hall key id hkey hwaiting)
    have hpage := (mem_list_objects_v2_iff.mp hmem).2
    obtain ⟨hkept, hreadable⟩ := hsees key hmem id hwaiting
    refine ⟨hpage, fun hover => hkept ((overwrittenIn_page_iff hpage).mpr hover), fun other hother hle hunread => ?_⟩
    have hotherPage := hpage.mono hle
    refine (overwrittenIn_page_iff hotherPage).mp (hreadable other ?_ hle hunread)
    exact mem_list_objects_v2_iff.mpr ⟨⟨mem_keys_of_unreadable hunread, hother⟩, hotherPage⟩
  · intro hseen key id hkey hwaiting
    have hsees : SeesAll config calls w.bucket (list_objects_v2 w.bucket config.s3_prefix_log) := by
      intro key hmem id hwaiting
      have hkey := hseen key id (mem_list_objects_v2 hmem) hwaiting
      refine ⟨fun hover => hkey.kept ((overwrittenIn_page_iff hkey.page).mp hover), fun other hother hle hunread => ?_⟩
      have hpage := (mem_list_objects_v2_iff.mp hother).2
      exact (overwrittenIn_page_iff hpage).mpr (hkey.readable other (mem_list_objects_v2 hother) hle hunread)
    have hpage := (hseen key id hkey hwaiting).page
    obtain ⟨data, hdata, _⟩ := hwaiting.record
    have hmem := mem_list_objects_v2_iff.mpr ⟨⟨Store.mem_keys_iff.mpr ⟨_, hdata⟩, hkey⟩, hpage⟩
    exact (h.pollsAll_iff hsorted).mpr hsees key hmem id hwaiting

/-- With separate prefixes no result is written over a log object. -/
theorem Config.Separate.not_overwritten (hsep : config.Separate) {bucket : Bucket}
    (hkey : config.s3_prefix_log <+: key) : ¬ Overwritten config calls bucket key := by
  rintro ⟨first, _, _, _, _, hresult⟩
  exact hsep.ne_result_key hkey first hresult.symm

end logs

section hidden

/-- The log object of the input whose name is `n` times the same letter. -/
def finished_key (n : ℕ) : Key :=
  "log/".toList ++ (List.replicate n 'a' ++ ".ogg.json".toList)

def pending_key : Key :=
  "log/b.ogg.json".toList

def running : JsonData :=
  { id := some "op", done := some false }

theorem finished_key_lt {m n : ℕ} (h : m < n) : finished_key m < finished_key n := by
  obtain ⟨k, rfl⟩ := Nat.exists_eq_add_of_lt h
  rw [finished_key, finished_key, Nat.add_assoc, List.replicate_add, List.append_assoc]
  refine List.append_left_lt (List.append_left_lt ?_)
  rw [List.replicate_succ]
  exact List.Lex.rel (by decide)

theorem finished_key_lt_pending_key (n : ℕ) : finished_key n < pending_key := by
  have hpending : pending_key = "log/".toList ++ "b.ogg.json".toList := by decide
  rw [hpending, finished_key]
  apply List.append_left_lt
  cases n with
  | zero => exact List.Lex.rel (by decide)
  | succ n => exact List.Lex.rel (by decide)

/-- A full page of finished records, and a pending one after them. -/
def full_bucket : Bucket where
  entries := (List.range 1000).map (fun n => (finished_key n, .json { id := some "op", done := some true })) ++
    [(pending_key, .json running)]
  sorted := by
    rw [List.pairwise_append, List.pairwise_map]
    refine ⟨List.pairwise_lt_range.imp finished_key_lt, List.pairwise_singleton _ _, fun entry hentry last hlast => ?_⟩
    obtain ⟨n, _, rfl⟩ := List.mem_map.mp hentry
    rw [List.mem_singleton.mp hlast]
    exact finished_key_lt_pending_key n

theorem keys_full_bucket : full_bucket.keys = (List.range 1000).map finished_key ++ [pending_key] := by
  simp [Store.keys, full_bucket, Function.comp_def]

theorem pending_not_onFirstPage : ¬ OnFirstPage full_bucket "log/".toList pending_key := by
  have hnodup : ((List.range 1000).map finished_key).Nodup :=
    (List.pairwise_map.mpr (List.pairwise_lt_range.imp finished_key_lt)).imp ne_of_lt
  have hbefore : (List.range 1000).map finished_key ⊆ full_bucket.before ("log/".toList.isPrefixOf ·) pending_key := by
    intro key hkey
    obtain ⟨n, _, rfl⟩ := List.mem_map.mp hkey
    refine Store.mem_before_iff.mpr ⟨?_, ?_, finished_key_lt_pending_key n⟩
    · rw [keys_full_bucket]
      exact List.mem_append_left _ hkey
    · exact List.isPrefixOf_iff_prefix.mpr (List.prefix_append _ _)
  have hlength := (List.Nodup.subperm hnodup hbefore).length_le
  rw [List.length_map, List.length_range] at hlength
  exact hlength.not_gt

/-- There is no input to submit. -/
theorem new_inputs_full_bucket (config : Config) (h : config.s3_prefix = "in/".toList) :
    new_inputs config full_bucket = [] := by
  have hnone : list_objects_v2 full_bucket config.s3_prefix = [] := by
    refine List.eq_nil_iff_forall_not_mem.mpr fun key hkey => ?_
    have hmem := (mem_list_objects_v2_iff.mp hkey).1
    rw [keys_full_bucket, h, List.mem_append] at hmem
    obtain ⟨hmem | hmem, hprefix⟩ := hmem
    · obtain ⟨n, _, rfl⟩ := List.mem_map.mp hmem
      exact absurd hprefix (by simp [finished_key])
    · rw [List.mem_singleton.mp hmem] at hprefix
      exact absurd hprefix (by decide)
  rw [new_inputs, hnone]
  rfl

def quiet_calls : RunCalls :=
  { submit := fun _ => { post := .json running }, check := fun _ => { poll := .json running } }

theorem quiet_calls_succeed : quiet_calls.Succeed where
  inputs := rfl
  head _ := rfl
  presigned _ := rfl
  post _ := ⟨running, "op", rfl, rfl, by decide⟩
  put _ := rfl
  logs := rfl
  read _ := rfl
  poll _ := ⟨running, rfl, rfl, rfl, by simp [running]⟩
  putResult _ := rfl
  putText _ := rfl
  putRecord _ := rfl

end hidden

end solution_library.asr_batch
