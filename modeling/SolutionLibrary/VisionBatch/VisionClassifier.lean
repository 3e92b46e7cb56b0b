import Mathlib.Data.List.Nodup
import SolutionLibrary.Library.Journal
import SolutionLibrary.Library.Loop
import SolutionLibrary.VisionBatch.ClassifyTaskHelper

open solution_library.journal
open solution_library.loop
open solution_library.paths
open solution_library.text

namespace solution_library.vision_batch

inductive Mode where
  | TEXT_DETECTION
  | CLASSIFICATION
  | FACE_DETECTION
  | IMAGE_COPY_SEARCH

structure Configuration where
  mode : Mode
  folderId : String
  model : String

/-- The file system: how it folds the case of the letters in a path (`id` when it distinguishes case), which files can be
read and what they hold, and which can be written. -/
structure Host where
  fold : Char → Char
  readAllBytes : Text → Option (List UInt8)
  writable : Text → Bool

/-- The file that a path leads to. -/
def Host.file (host : Host) (path : Text) : Text :=
  path.map host.fold

inductive Feature where
  | classification (model : String)
  | imageCopySearch

structure AnalyzeSpec where
  content : List UInt8
  mimeType : String
  feature : Feature

structure BatchAnalyzeRequest where
  folderId : String
  analyzeSpecs : List AnalyzeSpec

/-- How one call of `BatchAnalyzeAsync` ends: with an exception, or with the array of the results. -/
inductive Reply where
  | raised
  | answer (results : List Text)

/-- What the service replies to the calls for a batch, the number of which is given, one after another. -/
abbrev Service := ℕ → BatchAnalyzeRequest → List Reply

/-- `File.WriteAllText`. -/
structure Write where
  path : Text
  json : Text

def MAX_BATCH_SIZE : ℕ := 5

/-- `none` is the exception of a file that cannot be read, of its MIME type, or of the mode. -/
def makeAnalyzeSpec (host : Host) (config : Configuration) (task : ClassifyTaskModel) : Option AnalyzeSpec := do
  let content ← host.readAllBytes task.ImagePath
  let mimeType ← task.MimeType
  match config.mode with
  | .CLASSIFICATION => some ⟨content, mimeType, .classification config.model⟩
  | .IMAGE_COPY_SEARCH => some ⟨content, mimeType, .imageCopySearch⟩
  | .TEXT_DETECTION | .FACE_DETECTION => none

/-- One of the results has the text of a quota error, in any case. -/
def isError (results : List Text) : Bool :=
  results.any fun result =>
    (result.map Char.toLower).tails.any ("limit on requests was exceeded".toList.isPrefixOf ·)

/-- The loop over the calls for one batch. It has no results when a call raises, when the response has no array, or
when the quota is exceeded every time. -/
def awaitResults : List Reply → Option (List Text)
  | [] => none
  | .raised :: _ => none
  | .answer results :: replies =>
    if results = [] then none
    else if isError results then awaitResults replies
    else some results

def outJsonPath (outDirectory : Text) (task : ClassifyTaskModel) : Text :=
  combine outDirectory (GetFileName task.ImagePath ++ ".json".toList)

/-- The state of the loop of `safeResults`. -/
structure Saving where
  i : ℕ
  written : List Write

/-- The body of the loop of `safeResults`. -/
def saveResult (host : Host) (outDirectory : Text) (parseResponse : List Text) (s : Saving) (task : ClassifyTaskModel) :
    Saving × Bool :=
  match parseResponse[s.i]? with
  | none => (s, true)
  | some jsonResult =>
    if host.writable (outJsonPath outDirectory task) then
      (⟨s.i + 1, s.written ++ [⟨outJsonPath outDirectory task, jsonResult⟩]⟩, false)
    else (s, true)

def safeResults (host : Host) (outDirectory : Text) (tasks : List ClassifyTaskModel) (parseResponse : List Text)
    (written : List Write) : Saving × Bool :=
  forEach (saveResult host outDirectory parseResponse) ⟨0, written⟩ tasks

/-- The state of the loop of `Classify`: the number of batches before this one, and what was written for them. -/
structure Progress where
  number : ℕ
  written : List Write

/-- The body of the loop of `Classify`. -/
def classifyBatch (host : Host) (config : Configuration) (outDirectory : Text) (service : Service) (s : Progress)
    (batch : List ClassifyTaskModel) : Progress × Bool :=
  -- the specifications are made anew for each call, from the same files
  match batch.mapM (makeAnalyzeSpec host config) with
  | none => (s, true)
  | some analyzeSpecs =>
    match awaitResults (service s.number ⟨config.folderId, analyzeSpecs⟩) with
    | none => (s, true)
    | some taskResponse =>
      let saved := safeResults host outDirectory batch taskResponse s.written
      (⟨s.number + 1, saved.1.written⟩, saved.2)

/-- What is written, and whether the call raises or still waits. -/
def Classify (host : Host) (config : Configuration) (outDirectory : Text) (service : Service)
    (tasks : List ClassifyTaskModel) : List Write × Bool :=
  if tasks = [] then ([], false)
  else
    let last := forEach (classifyBatch host config outDirectory service) ⟨0, []⟩ (Batch tasks MAX_BATCH_SIZE)
    (last.1.written, last.2)

/-- The service answers a batch with one result for each image, in order, unless the quota is exceeded. -/
def Answers (host : Host) (config : Configuration) (service : Service) (analysis : ClassifyTaskModel → Text)
    (number : ℕ) (batch : List ClassifyTaskModel) : Prop :=
  ∀ analyzeSpecs, batch.mapM (makeAnalyzeSpec host config) = some analyzeSpecs →
    ∀ results, .answer results ∈ service number ⟨config.folderId, analyzeSpecs⟩ →
      isError results ∨ results = batch.map analysis

/-- The batches hold the tasks in order, every task has a file that holds the result of its image, whatever was there
before, and no file is written twice. -/
structure OwnResults (host : Host) (outDirectory : Text) (analysis : ClassifyTaskModel → Text)
    (tasks : List ClassifyTaskModel) (written : List Write) : Prop where
  batched : (Batch tasks MAX_BATCH_SIZE).flatten = tasks
  stored : ∀ task ∈ tasks, ∀ old, last (fun write => host.file write.path) (fun write => some write.json) written
    (host.file (outJsonPath outDirectory task)) old = some (analysis task)
  exclusive : (written.map fun write => host.file write.path).Nodup

/-- What is written for a task. -/
def ownWrite (outDirectory : Text) (analysis : ClassifyTaskModel → Text) (task : ClassifyTaskModel) : Write :=
  ⟨outJsonPath outDirectory task, analysis task⟩

section saving

variable {host : Host} {outDirectory : Text} {parseResponse : List Text} {analysis : ClassifyTaskModel → Text}

theorem saveResult_of_returned {s : Saving} {task : ClassifyTaskModel} {jsonResult : Text}
    (hresult : parseResponse[s.i]? = some jsonResult)
    (hreturned : (saveResult host outDirectory parseResponse s task).2 = false) :
    (saveResult host outDirectory parseResponse s task).1 =
      ⟨s.i + 1, s.written ++ [⟨outJsonPath outDirectory task, jsonResult⟩]⟩ := by
  rw [saveResult, hresult] at hreturned ⊢
  by_cases hwritable : host.writable (outJsonPath outDirectory task) = true
  · simp only [if_pos hwritable]
  · simp [if_neg hwritable] at hreturned

/-- The results go to the tasks by position. -/
theorem forEach_saveResult {s : Saving} {tasks : List ClassifyTaskModel}
    (hresults : parseResponse.drop s.i = tasks.map analysis)
    (hreturned : (forEach (saveResult host outDirectory parseResponse) s tasks).2 = false) :
    (forEach (saveResult host outDirectory parseResponse) s tasks).1.written =
      s.written ++ tasks.map (ownWrite outDirectory analysis) := by
  induction tasks generalizing s with
  | nil => exact (List.append_nil s.written).symm
  | cons task tasks ih =>
    obtain ⟨hbody, hrest⟩ := returned_of_forEach_cons hreturned
    have hresult : parseResponse[s.i]? = some (analysis task) := by
      rw [← List.head?_drop, hresults]
      rfl
    have hstep := saveResult_of_returned hresult hbody
    have hlater : parseResponse.drop (s.i + 1) = tasks.map analysis := by
      rw [← List.tail_drop, hresults]
      rfl
    rw [forEach_cons hbody]
    rw [hstep] at hrest ⊢
    rw [ih hlater hrest, List.append_assoc]
    rfl

end saving

section classify

variable {host : Host} {config : Configuration} {outDirectory : Text} {service : Service}
  {analysis : ClassifyTaskModel → Text}

/-- What the loop waits for is an answer that is no quota error. -/
theorem of_awaitResults {replies : List Reply} {results : List Text} (h : awaitResults replies = some results) :
    .answer results ∈ replies ∧ isError results = false := by
  fun_induction awaitResults replies with
  | case1 => cases h
  | case2 => cases h
  | case3 => cases h
  | case4 found replies _ _ ih =>
    obtain ⟨hmem, herror⟩ := ih h
    exact ⟨List.mem_cons_of_mem _ hmem, herror⟩
  | case5 found replies _ herror =>
    cases h
    exact ⟨List.mem_cons_self, Bool.eq_false_iff.mpr herror⟩

theorem classifyBatch_of_returned {s : Progress} {batch : List ClassifyTaskModel}
    (hservice : Answers host config service analysis s.number batch)
    (hreturned : (classifyBatch host config outDirectory service s batch).2 = false) :
    (classifyBatch host config outDirectory service s batch).1 =
      ⟨s.number + 1, s.written ++ batch.map (ownWrite outDirectory analysis)⟩ := by
  rw [classifyBatch] at hreturned ⊢
  cases hspecs : batch.mapM (makeAnalyzeSpec host config) with
  | none => simp [hspecs] at hreturned
  | some analyzeSpecs =>
    cases hresponse : awaitResults (service s.number ⟨config.folderId, analyzeSpecs⟩) with
    | none => simp [hspecs, hresponse] at hreturned
    | some taskResponse =>
      simp only [hspecs, hresponse] at hreturned ⊢
      obtain ⟨hmem, herror⟩ := of_awaitResults hresponse
      have hresults : taskResponse = batch.map analysis := by
        obtain h | h := hservice analyzeSpecs hspecs taskResponse hmem
        · simp [herror] at h
        · exact h
      rw [safeResults, forEach_saveResult (by rw [List.drop_zero, hresults]) hreturned]

theorem forEach_classifyBatch {s : Progress} {batches : List (List ClassifyTaskModel)}
    (hservice : ∀ i batch, batches[i]? = some batch → Answers host config service analysis (s.number + i) batch)
    (hreturned : (forEach (classifyBatch host config outDirectory service) s batches).2 = false) :
    (forEach (classifyBatch host config outDirectory service) s batches).1.written =
      s.written ++ batches.flatten.map (ownWrite outDirectory analysis) := by
  induction batches generalizing s with
  | nil => exact (List.append_nil s.written).symm
  | cons batch batches ih =>
    obtain ⟨hbody, hrest⟩ := returned_of_forEach_cons hreturned
    have hstep := classifyBatch_of_returned (hservice 0 batch rfl) hbody
    rw [forEach_cons hbody]
    rw [hstep] at hrest ⊢
    rw [ih _ hrest, List.append_assoc, List.flatten_cons, List.map_append]
    intro i later hlater
    have hnext := hservice (i + 1) later hlater
    rwa [← Nat.add_assoc, Nat.add_right_comm] at hnext

/-- Whatever the retries, each task has its own result written, in the order of the tasks. -/
theorem Classify_of_returned {tasks : List ClassifyTaskModel}
    (hservice : ∀ number batch, (Batch tasks MAX_BATCH_SIZE)[number]? = some batch →
      Answers host config service analysis number batch)
    (hreturned : (Classify host config outDirectory service tasks).2 = false) :
    (Classify host config outDirectory service tasks).1 = tasks.map (ownWrite outDirectory analysis) := by
  rw [Classify] at hreturned ⊢
  split
  · next hempty =>
    rw [hempty]
    rfl
  · next hnonempty =>
    rw [if_neg hnonempty] at hreturned
    have hbatches : ∀ i batch, (Batch tasks MAX_BATCH_SIZE)[i]? = some batch →
        Answers host config service analysis (0 + i) batch := by
      intro i batch hbatch
      rw [Nat.zero_add]
      exact hservice i batch hbatch
    apply (forEach_classifyBatch hbatches hreturned).trans
    rw [flatten_Batch (by decide), List.nil_append]

end classify

section files

variable {host : Host} {outDirectory : Text} {analysis : ClassifyTaskModel → Text} {tasks : List ClassifyTaskModel}

theorem separator_not_mem_GetFileName (path : Text) : '/' ∉ GetFileName path := by
  intro h
  have hne := List.mem_rtakeWhile_imp h
  simp at hne

/-- The file of a result depends on the file name of the image only, and on all of it. -/
theorem exists_file_outJsonPath (host : Host) (outDirectory : Text) : ∃ place : Text → Text, place.Injective ∧
    ∀ task : ClassifyTaskModel, host.file (outJsonPath outDirectory task) =
      place (host.file (GetFileName task.ImagePath)) := by
  obtain ⟨front, _, hcombine⟩ := exists_combine_eq outDirectory
  refine ⟨fun name => host.file front ++ (name ++ host.file ".json".toList), fun first second h => ?_, fun task => ?_⟩
  · exact List.append_cancel_right (List.append_cancel_left h)
  · have hname : '/' ∉ GetFileName task.ImagePath ++ ".json".toList := by
      rw [List.mem_append, not_or]
      exact ⟨separator_not_mem_GetFileName task.ImagePath, by decide⟩
    have hrooted := isPathRooted_of_not_mem hname
    rw [outJsonPath, hcombine _ (by simp) hrooted]
    simp only [Host.file, List.map_append]

theorem stored_of_exclusive
    (h : ((tasks.map (ownWrite outDirectory analysis)).map fun write => host.file write.path).Nodup) :
    ∀ task ∈ tasks, ∀ old, last (fun write => host.file write.path) (fun write => some write.json)
      (tasks.map (ownWrite outDirectory analysis)) (host.file (outJsonPath outDirectory task)) old =
        some (analysis task) := by
  intro task htask old
  have hmem : ownWrite outDirectory analysis task ∈ tasks.map (ownWrite outDirectory analysis) :=
    List.mem_map_of_mem htask
  apply last_of_forall_eq _ ⟨_, hmem, rfl⟩
  intro write hwrite hfile
  rw [List.inj_on_of_nodup_map h hwrite hmem hfile]
  rfl

theorem exclusive_iff (host : Host) (outDirectory : Text) (analysis : ClassifyTaskModel → Text)
    (tasks : List ClassifyTaskModel) :
    ((tasks.map (ownWrite outDirectory analysis)).map fun write => host.file write.path).Nodup ↔
      ((tasks.map (GetFileName ·.ImagePath)).map host.file).Nodup := by
  obtain ⟨place, hplace, hfile⟩ := exists_file_outJsonPath host outDirectory
  have hpaths : (tasks.map (ownWrite outDirectory analysis)).map (fun write => host.file write.path) =
      ((tasks.map (GetFileName ·.ImagePath)).map host.file).map place := by
    rw [List.map_map, List.map_map, List.map_map]
    exact List.map_congr_left fun task _ => hfile task
  rw [hpaths, List.nodup_map_iff hplace]

end files

/-- When `Classify` returns, every image has kept its own result exactly when no two image files below the directory
have the same name. -/
theorem ownResults_iff_nodup (host : Host) (config : Configuration) (outDirectory dir : Text) (tree : Directory)
    (service : Service) (analysis : ClassifyTaskModel → Text)
    (hservice : ∀ number batch, (Batch (MakeDirectoryTasks dir tree) MAX_BATCH_SIZE)[number]? = some batch →
      Answers host config service analysis number batch)
    (hreturned : (Classify host config outDirectory service (MakeDirectoryTasks dir tree)).2 = false) :
    OwnResults host outDirectory analysis (MakeDirectoryTasks dir tree)
      (Classify host config outDirectory service (MakeDirectoryTasks dir tree)).1 ↔
        (tree.imageNames.map host.file).Nodup := by
  have hexclusive := exclusive_iff host outDirectory analysis (MakeDirectoryTasks dir tree)
  rw [map_GetFileName_MakeDirectoryTasks] at hexclusive
  rw [Classify_of_returned hservice hreturned, ← hexclusive]
  constructor
  · exact fun h => h.exclusive
  · exact fun h => ⟨flatten_Batch (by decide) _, stored_of_exclusive h, h⟩

section photos

/-- A service that exceeds the quota once for each batch, and then answers. -/
def patientService (tasks : List ClassifyTaskModel) (analysis : ClassifyTaskModel → Text) : Service :=
  fun number _ => [.answer ["The limit on requests was exceeded".toList],
    .answer (((Batch tasks MAX_BATCH_SIZE)[number]?.getD []).map analysis)]

theorem answers_patientService (host : Host) (config : Configuration) (tasks : List ClassifyTaskModel)
    (analysis : ClassifyTaskModel → Text) : ∀ number batch, (Batch tasks MAX_BATCH_SIZE)[number]? = some batch →
      Answers host config (patientService tasks analysis) analysis number batch := by
  intro number batch hbatch _ _ results hresults
  rw [patientService, hbatch] at hresults
  obtain h | h := List.mem_cons.mp hresults
  · cases h
    exact .inl (by decide +kernel)
  · cases List.mem_singleton.mp h
    exact .inr rfl

def plainHost : Host :=
  ⟨id, fun _ => some [0xFF, 0xD8], fun _ => true⟩

def plainConfiguration : Configuration :=
  ⟨.CLASSIFICATION, "folder", "quality"⟩

def name_1 : Name :=
  ⟨"1.jpg".toList, by decide, by decide⟩

def name_2 : Name :=
  ⟨"2.PNG".toList, by decide, by decide⟩

def name_a : Name :=
  ⟨['a'], by decide, by decide⟩

def name_b : Name :=
  ⟨['b'], by decide, by decide⟩

/-- Files of different names, one of them in a subdirectory. -/
theorem ownResults_iff_nodup_photos :
    let tree : Directory := .mk [name_1] [(name_a, .mk [name_2] [])]
    let tasks := MakeDirectoryTasks "photos".toList tree
    let service := patientService tasks ClassifyTaskModel.ImagePath
    OwnResults plainHost "/out".toList ClassifyTaskModel.ImagePath tasks
      (Classify plainHost plainConfiguration "/out".toList service tasks).1 ↔
        (tree.imageNames.map plainHost.file).Nodup :=
  ownResults_iff_nodup _ _ _ _ _ _ _ (answers_patientService _ _ _ _) (by decide +kernel)

/-- Of two files of one name in different directories, the first loses its result. -/
theorem same_name_overwritten : ¬ ∀ host config outDirectory dir tree service analysis,
    (∀ number batch, (Batch (MakeDirectoryTasks dir tree) MAX_BATCH_SIZE)[number]? = some batch →
      Answers host config service analysis number batch) →
    (Classify host config outDirectory service (MakeDirectoryTasks dir tree)).2 = false →
    OwnResults host outDirectory analysis (MakeDirectoryTasks dir tree)
      (Classify host config outDirectory service (MakeDirectoryTasks dir tree)).1 := by
  intro h
  have hown := h plainHost plainConfiguration "/out".toList "photos".toList
    (.mk [] [(name_a, .mk [name_1] []), (name_b, .mk [name_1] [])]) (patientService _ ClassifyTaskModel.ImagePath)
    ClassifyTaskModel.ImagePath (answers_patientService _ _ _ _) (by decide +kernel)
  have hstored := hown.stored ⟨"photos/a/1.jpg".toList⟩ (by decide +kernel) none
  revert hstored
  decide +kernel

end photos

end solution_library.vision_batch
