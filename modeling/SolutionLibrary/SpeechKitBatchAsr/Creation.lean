import SolutionLibrary.SpeechKitBatchAsr.Transcripts

open solution_library.loop
open solution_library.store
open solution_library.text

namespace solution_library.speechkit_batch_asr

/-- How `LongRunningRecognize` and the write of its task end: the call raises, the recognition is started but the run
breaks off before the task is in the file, or the task is stored. -/
inductive Submission where
  | raised
  | unstored (id : Text)
  | stored (id : Text)

/-- What one run of `DoCreateTasks` meets: the pages of the bucket that are answered, and the calls for their keys.
The keys of a page are taken in an order of `orderby`. -/
structure CreateCalls where
  pages : List (List Text)
  preSignedUrl : Text → Text
  submission : Text → Submission
  orderby : List Text → List Text
  orderby_perm : ∀ keys, (orderby keys).Perm keys

/-- A key and the operation that was started for it. -/
abbrev Recognition := Text × Text

/-- The database of a run, all recognitions that the service has started so far, and those of them whose run broke off
before the task was stored. -/
structure CreateState where
  db : SkTaskDb
  started : List Recognition
  unstored : List Recognition

/-- The body of the loop of `CreateRecognitionTask`. -/
def createTask (newLine : NewLine) (calls : CreateCalls) (s : CreateState) (key : Text) : CreateState × Bool :=
  let task : SkTaskModel := ⟨key, some (calls.preSignedUrl key), none⟩
  if s.db.taskDb.exist task then (s, false)
  else
    match calls.submission key with
    | .raised => (s, true)
    | .unstored id =>
      ({ s with started := s.started ++ [(key, id)], unstored := s.unstored ++ [(key, id)] }, true)
    | .stored id =>
      ({ s with db := storeTask newLine s.db { task with taskId := some id }, started := s.started ++ [(key, id)] },
        false)

/-- The keys of a page that become tasks. -/
def CreateCalls.recordings (calls : CreateCalls) (page : List Text) : List Text :=
  calls.orderby (page.filter isRecording)

/-- The body of the loop of `ProcessBucket`, which ends at an exception. -/
def processPage (newLine : NewLine) (calls : CreateCalls) (s : CreateState) (page : List Text) : CreateState × Bool :=
  forEach (createTask newLine calls) s (calls.recordings page)

def processBucket (newLine : NewLine) (calls : CreateCalls) (s : CreateState) : CreateState :=
  (forEach (processPage newLine calls) s calls.pages).1

/-- What is left between the runs of the program. -/
structure Tool where
  file : Option Text := none
  world : World := {}
  started : List Recognition := []
  unstored : List Recognition := []

/-- A run in one of the modes. -/
inductive ToolRun where
  | stt_create_tasks (calls : CreateCalls)
  | stt_task_results (calls : RunCalls)

/-- One execution of the program. A file of tasks that cannot be loaded ends it. -/
def runOptions (cfg : Configuration) (newLine : NewLine) (tool : Tool) (run : ToolRun) : Tool :=
  match loadTasksDbFile tool.file with
  | .error _ => tool
  | .ok taskDb =>
    match run with
    | .stt_create_tasks calls =>
      let s := processBucket newLine calls ⟨⟨tool.file, taskDb⟩, tool.started, tool.unstored⟩
      { tool with file := s.db.file, started := s.started, unstored := s.unstored }
    | .stt_task_results calls => { tool with world := doTaskResults cfg newLine taskDb.tasks tool.world calls }

/-- A key that is written to the file of tasks and read back as it was. -/
structure CleanKey (key : Text) : Prop where
  clean : CleanField key
  unmarked : key.head? ≠ some '\uFEFF'

/-- The task of a key can be written to the file. -/
structure CreateCalls.CleanTask (calls : CreateCalls) (key : Text) : Prop where
  path : CleanKey key
  audioUrl : CleanField (calls.preSignedUrl key)
  taskId : ∀ id, calls.submission key = .stored id → CleanField id

/-- The recordings of a run are among the keys, and their tasks can be written. -/
def CreateCalls.Clean (calls : CreateCalls) (keys : Text → Prop) : Prop :=
  ∀ page ∈ calls.pages, ∀ key ∈ page, isRecording key = true → keys key ∧ calls.CleanTask key

/-- The recognition of a stored task. -/
def SkTaskModel.recognition (task : SkTaskModel) : Recognition :=
  (task.path, task.taskId.getD [])

/-- The file holds the tasks, and each recognition that was started has a task or broke its run off. -/
structure CreateState.Sound (newLine : NewLine) (keys : Text → Prop) (s : CreateState) : Prop where
  written : s.db.Written newLine
  clean : ∀ task ∈ s.db.taskDb.tasks, task.Clean
  key : ∀ task ∈ s.db.taskDb.tasks, keys task.path ∧ isRecording task.path = true ∧ CleanKey task.path
  started : (s.db.taskDb.tasks.map SkTaskModel.recognition ++ s.unstored).Perm s.started

section creation

variable {newLine : NewLine} {keys : Text → Prop} {calls : CreateCalls} {s : CreateState} {key : Text}
  {page : List Text}

theorem mem_recordings_iff : key ∈ calls.recordings page ↔ key ∈ page ∧ isRecording key = true := by
  rw [CreateCalls.recordings, (calls.orderby_perm _).mem_iff, List.mem_filter]

/-- What one iteration does: nothing, a recognition without a task, or a recognition with its task. -/
theorem createTask_cases (newLine : NewLine) (calls : CreateCalls) (s : CreateState) (key : Text) :
    (∃ raised, createTask newLine calls s key = (s, raised)) ∨
      (∃ id, createTask newLine calls s key =
        ({ s with started := s.started ++ [(key, id)], unstored := s.unstored ++ [(key, id)] }, true)) ∨
      ∃ id, ∃ hnew : ¬s.db.taskDb.exist ⟨key, some (calls.preSignedUrl key), some id⟩,
        calls.submission key = .stored id ∧ createTask newLine calls s key =
          (⟨⟨some (s.db.file.getD [] ++ ((SkTaskModel.mk key (some (calls.preSignedUrl key)) (some id)).line ++
              newLine.text)), s.db.taskDb.insert _ hnew⟩, s.started ++ [(key, id)], s.unstored⟩, false) := by
  rw [createTask]
  by_cases hexist : s.db.taskDb.exist ⟨key, some (calls.preSignedUrl key), none⟩
  · exact .inl ⟨false, if_pos hexist⟩
  · dsimp only
    rw [if_neg hexist]
    cases hsubmission : calls.submission key with
    | raised => exact .inl ⟨true, rfl⟩
    | unstored id => exact .inr (.inl ⟨id, rfl⟩)
    | stored id =>
      have hnew : ¬s.db.taskDb.exist ⟨key, some (calls.preSignedUrl key), some id⟩ := hexist
      refine .inr (.inr ⟨id, hnew, rfl, ?_⟩)
      dsimp only
      rw [storeTask_of_not_exist hnew]

theorem CreateState.Sound.createTask (h : s.Sound newLine keys) (hkey : keys key) (hrecording : isRecording key = true)
    (hclean : calls.CleanTask key) : (createTask newLine calls s key).1.Sound newLine keys := by
  obtain ⟨raised, hsame⟩ | ⟨id, hunstored⟩ | ⟨id, hnew, hsubmission, hstored⟩ := createTask_cases newLine calls s key
  · rw [hsame]
    exact h
  · rw [hunstored]
    refine ⟨h.written, h.clean, h.key, ?_⟩
    dsimp only
    rw [← List.append_assoc]
    exact h.started.append_right _
  · have hwritten := h.written.storeTask ⟨key, some (calls.preSignedUrl key), some id⟩
    rw [storeTask_of_not_exist hnew] at hwritten
    rw [hstored]
    refine ⟨hwritten, ?_, ?_, ?_⟩
    · refine List.forall_mem_append.mpr ⟨h.clean, List.forall_mem_singleton.mpr ?_⟩
      exact ⟨hclean.path.clean, ⟨_, rfl, hclean.audioUrl⟩, ⟨_, rfl, hclean.taskId id hsubmission⟩⟩
    · refine List.forall_mem_append.mpr ⟨h.key, List.forall_mem_singleton.mpr ?_⟩
      exact ⟨hkey, hrecording, hclean.path⟩
    · dsimp only [TaskDb.insert]
      rw [List.map_append, List.append_assoc]
      refine (List.Perm.append_left _ List.perm_append_comm).trans ?_
      rw [← List.append_assoc]
      exact h.started.append_right _

theorem CreateState.Sound.processPage (h : s.Sound newLine keys) (hcalls : calls.Clean keys)
    (hpage : page ∈ calls.pages) : (processPage newLine calls s page).1.Sound newLine keys := by
  refine forEach_keeps (CreateState.Sound newLine keys) (fun s key hkey hs => ?_) h
  obtain ⟨hmem, hrecording⟩ := mem_recordings_iff.mp hkey
  obtain ⟨hkeys, hclean⟩ := hcalls page hpage key hmem hrecording
  exact hs.createTask hkeys hrecording hclean

theorem CreateState.Sound.processBucket (h : s.Sound newLine keys) (hcalls : calls.Clean keys) :
    (processBucket newLine calls s).Sound newLine keys :=
  forEach_keeps (CreateState.Sound newLine keys) (fun _ _ hpage hs => hs.processPage hcalls hpage) h

/-- A run only adds tasks. -/
theorem tasks_subset_createTask (newLine : NewLine) (calls : CreateCalls) (s : CreateState) (key : Text) :
    s.db.taskDb.tasks ⊆ (createTask newLine calls s key).1.db.taskDb.tasks := by
  obtain ⟨raised, hsame⟩ | ⟨id, hunstored⟩ | ⟨id, hnew, _, hstored⟩ := createTask_cases newLine calls s key
  · rw [hsame]
    exact List.Subset.refl _
  · rw [hunstored]
    exact List.Subset.refl _
  · rw [hstored]
    exact fun task htask => List.mem_append_left _ htask

theorem tasks_subset_processBucket (newLine : NewLine) (calls : CreateCalls) (s : CreateState) :
    s.db.taskDb.tasks ⊆ (processBucket newLine calls s).db.taskDb.tasks := by
  refine forEach_keeps (fun t : CreateState => s.db.taskDb.tasks ⊆ t.db.taskDb.tasks) (fun t page _ ht => ?_)
    (List.Subset.refl _)
  exact forEach_keeps (fun t : CreateState => s.db.taskDb.tasks ⊆ t.db.taskDb.tasks)
    (fun t key _ ht => List.Subset.trans ht (tasks_subset_createTask newLine calls t key)) ht

/-- The file of a sound state is loaded as the tasks that are in it. -/
theorem CreateState.Sound.load (h : s.Sound newLine keys) : loadTasksDbFile s.db.file = .ok s.db.taskDb := by
  cases htasks : s.db.taskDb.tasks with
  | nil =>
    have hempty : s.db.taskDb = .empty := TaskDb.eq_of_tasks_eq htasks
    have hfile := h.written.file
    rw [hempty]
    cases hsome : s.db.file with
    | none => rfl
    | some text =>
      rw [hsome, Option.getD_some, htasks] at hfile
      rw [hfile]
      rfl
  | cons task tasks =>
    have hclean := h.clean
    have hmark := (h.key task (htasks ▸ List.mem_cons_self)).2.2.unmarked
    rw [htasks] at hclean
    have hread := mapM_splitAndFill newLine fun task htask => (SkTaskModel.clean_iff.mp (hclean task htask)).1
    rw [h.written.loaded_iff htasks, SkTaskModel.unmark_of_head hmark, hread, htasks]
    apply congrArg Except.ok
    conv_rhs => rw [← List.map_id (task :: tasks)]
    exact List.map_congr_left fun t ht => (SkTaskModel.clean_iff.mp (hclean t ht)).2

/-- Each recording of a run in which nothing raises has a task at its end. -/
theorem exist_processBucket (hstored : ∀ key, ∃ id, calls.submission key = .stored id) (hpage : page ∈ calls.pages)
    (hkey : key ∈ page) (hrecording : isRecording key = true) :
    ∃ task ∈ (processBucket newLine calls s).db.taskDb.tasks, task.path = key := by
  have hreturns (s : CreateState) (key : Text) : (createTask newLine calls s key).2 = false := by
    obtain ⟨id, hid⟩ := hstored key
    rw [createTask]
    dsimp only
    split_ifs
    · rfl
    · rw [hid]
  have hcreates (s : CreateState) : ∃ task ∈ (createTask newLine calls s key).1.db.taskDb.tasks, task.path = key := by
    obtain ⟨id, hid⟩ := hstored key
    rw [createTask]
    dsimp only
    split_ifs with hexist
    · exact List.mem_map.mp hexist
    · have hnew : ¬s.db.taskDb.exist ⟨key, some (calls.preSignedUrl key), some id⟩ := hexist
      rw [hid]
      dsimp only
      rw [storeTask_of_not_exist hnew]
      exact ⟨_, List.mem_append_right _ List.mem_cons_self, rfl⟩
  have hkeeps (s : CreateState) (other : Text) (htask : ∃ task ∈ s.db.taskDb.tasks, task.path = key) :
      ∃ task ∈ (createTask newLine calls s other).1.db.taskDb.tasks, task.path = key := by
    obtain ⟨task, htask, hpath⟩ := htask
    exact ⟨task, tasks_subset_createTask newLine calls s other htask, hpath⟩
  refine forEach_establishes (fun s : CreateState => ∃ task ∈ s.db.taskDb.tasks, task.path = key) hpage
    (fun s page _ => forEach_returns fun s key _ => hreturns s key) (fun s page _ hs => ?_) fun s => ?_
  · exact forEach_keeps (fun s : CreateState => ∃ task ∈ s.db.taskDb.tasks, task.path = key)
      (fun s other _ hs => hkeeps s other hs) hs
  · exact forEach_establishes (fun s : CreateState => ∃ task ∈ s.db.taskDb.tasks, task.path = key)
      (mem_recordings_iff.mpr ⟨hkey, hrecording⟩) (fun s other _ => hreturns s other)
      (fun s other _ hs => hkeeps s other hs) hcreates

end creation

end solution_library.speechkit_batch_asr
