import SolutionLibrary.SpeechKitBatchAsr.Creation

open solution_library.file_tree
open solution_library.loop
open solution_library.store
open solution_library.text

namespace solution_library.speechkit_batch_asr

/-- The tasks of the file and the recognitions behind them. -/
def Tool.createState (tool : Tool) (taskDb : TaskDb) : CreateState :=
  ⟨⟨tool.file, taskDb⟩, tool.started, tool.unstored⟩

/-- The transcript file of a key. -/
def transcriptFile (cfg : Configuration) (key : Text) : List Text :=
  txtFile cfg ⟨key, none, none⟩

/-- Different keys have different transcript files, none of them is there at the
start, and nothing stands in the way of one. -/
structure SeparateKeys (cfg : Configuration) (start : FileTree Text Content) (keys : Text → Prop) : Prop where
  transcripts : ∀ key other, keys key → keys other → key ≠ other → transcriptFile cfg key ≠ transcriptFile cfg other
  fresh : ∀ task : SkTaskModel, keys task.path → Fresh cfg start task
  unobstructed : Unobstructed cfg start fun task => keys task.path

/-- The runs of creation in a schedule write what can be read back. -/
def CleanRuns (keys : Text → Prop) (runs : List ToolRun) : Prop :=
  ∀ calls, .stt_create_tasks calls ∈ runs → calls.Clean keys

section runs

variable {cfg : Configuration} {newLine : NewLine} {keys : Text → Prop} {tool : Tool} {taskDb after : TaskDb}
  {runs : List ToolRun}

theorem path_ne_nil_of_isRecording {key : Text} (h : isRecording key = true) : key ≠ [] := by
  rintro rfl
  cases h

theorem runOptions_create (hload : loadTasksDbFile tool.file = .ok taskDb) (calls : CreateCalls) :
    runOptions cfg newLine tool (.stt_create_tasks calls) =
      { tool with
        file := (processBucket newLine calls (tool.createState taskDb)).db.file
        started := (processBucket newLine calls (tool.createState taskDb)).started
        unstored := (processBucket newLine calls (tool.createState taskDb)).unstored } := by
  rw [runOptions, hload]
  rfl

theorem runOptions_results (hload : loadTasksDbFile tool.file = .ok taskDb) (calls : RunCalls) :
    runOptions cfg newLine tool (.stt_task_results calls) =
      { tool with world := doTaskResults cfg newLine taskDb.tasks tool.world calls } := by
  rw [runOptions, hload]

/-- A run keeps the tasks of the file sound, and only adds tasks. -/
theorem sound_runOptions (h : (tool.createState taskDb).Sound newLine keys) (cfg : Configuration) (run : ToolRun)
    (hrun : ∀ calls, run = .stt_create_tasks calls → calls.Clean keys) :
    ∃ after, ((runOptions cfg newLine tool run).createState after).Sound newLine keys ∧
      taskDb.tasks ⊆ after.tasks := by
  cases run with
  | stt_create_tasks calls =>
    rw [runOptions_create h.load]
    exact ⟨_, h.processBucket (hrun calls rfl), tasks_subset_processBucket newLine calls (tool.createState taskDb)⟩
  | stt_task_results calls =>
    rw [runOptions_results h.load]
    exact ⟨taskDb, h, List.Subset.refl _⟩

theorem sound_tool_init (newLine : NewLine) (keys : Text → Prop) :
    (({} : Tool).createState .empty).Sound newLine keys := by
  refine ⟨⟨rfl, fun _ => rfl⟩, ?_, ?_, List.Perm.refl _⟩
  · exact fun _ hmem => absurd hmem List.not_mem_nil
  · exact fun _ hmem => absurd hmem List.not_mem_nil

theorem sound_foldl (cfg : Configuration) (newLine : NewLine) (hclean : CleanRuns keys runs) :
    ∃ taskDb, ((runs.foldl (runOptions cfg newLine) {}).createState taskDb).Sound newLine keys := by
  induction runs using List.reverseRecOn with
  | nil => exact ⟨.empty, sound_tool_init newLine keys⟩
  | append_singleton runs run ih =>
    obtain ⟨taskDb, hsound⟩ := ih fun calls hmem => hclean calls (List.mem_append_left _ hmem)
    rw [List.foldl_concat]
    obtain ⟨after, hafter, _⟩ := sound_runOptions hsound cfg run fun calls hcalls =>
      hclean calls (List.mem_append_right _ (hcalls ▸ List.mem_cons_self))
    exact ⟨after, hafter⟩

/-- In every sequence of runs, whatever breaks them off, a recognition that was started has its task in the file or
broke its run off before the file was written. A key has at most one task, so it is started once more only for a run
that it broke off. -/
theorem started_once (cfg : Configuration) (newLine : NewLine) (runs : List ToolRun)
    (hclean : CleanRuns (fun _ => True) runs) :
    let tool := runs.foldl (runOptions cfg newLine) {}
    ∃ taskDb, loadTasksDbFile tool.file = .ok taskDb ∧
      (taskDb.tasks.map SkTaskModel.recognition ++ tool.unstored).Perm tool.started ∧
      ∀ key, tool.started.countP (·.1 = key) ≤ 1 + tool.unstored.countP (·.1 = key) := by
  intro tool
  obtain ⟨taskDb, hsound⟩ := sound_foldl cfg newLine hclean
  refine ⟨taskDb, hsound.load, hsound.started, fun key => ?_⟩
  have hpaths : (taskDb.tasks.map SkTaskModel.recognition).map Prod.fst = taskDb.tasks.map SkTaskModel.path := by
    rw [List.map_map]
    rfl
  have hcount : (taskDb.tasks.map SkTaskModel.recognition).countP (·.1 = key) ≤ 1 := by
    have hnodup := taskDb.nodup
    rw [← hpaths] at hnodup
    have hone := List.nodup_iff_count_le_one.mp hnodup key
    rw [List.count, List.countP_map] at hone
    exact (List.countP_mono_left fun x _ hx => by simpa using hx).trans hone
  have hstarted : (taskDb.tasks.map SkTaskModel.recognition ++ tool.unstored).Perm tool.started := hsound.started
  rw [← hstarted.countP_eq, List.countP_append]
  exact Nat.add_le_add_right hcount _

/-- A run over a bucket of one recording. -/
def oneRecording (submission : Submission) : CreateCalls :=
  ⟨[["a.wav".toList]], fun _ => "https://storage/a".toList, fun _ => submission, id, fun _ => .refl _⟩

theorem cleanField_of_all {field : Text} (hseparate : (field.all fun c => c != ';' && !isLineBreak c) = true)
    (htrim : trim isWhiteSpace field = field) : CleanField field := by
  refine ⟨fun c hc => ?_, htrim⟩
  have hc := List.all_eq_true.mp hseparate c hc
  rw [Bool.and_eq_true, bne_iff_ne, Bool.not_eq_true'] at hc
  exact hc

theorem clean_oneRecording (id : String) (hid : CleanField id.toList) (hkeys : keys "a.wav".toList) :
    (oneRecording (.stored id.toList)).Clean keys ∧ (oneRecording (.unstored id.toList)).Clean keys := by
  have hpath : CleanKey "a.wav".toList := ⟨cleanField_of_all rfl rfl, by decide⟩
  have hurl : CleanField "https://storage/a".toList := cleanField_of_all rfl rfl
  constructor
  · intro page hpage key hkey _
    rw [List.mem_singleton.mp hpage] at hkey
    rw [List.mem_singleton.mp hkey]
    refine ⟨hkeys, hpath, hurl, fun other hother => ?_⟩
    cases hother
    exact hid
  · intro page hpage key hkey _
    rw [List.mem_singleton.mp hpage] at hkey
    rw [List.mem_singleton.mp hkey]
    exact ⟨hkeys, hpath, hurl, fun other hother => by cases hother⟩

theorem cleanField_ids : CleanField "1".toList ∧ CleanField "2".toList :=
  ⟨cleanField_of_all rfl rfl, cleanField_of_all rfl rfl⟩

/-- A recognition whose run breaks off is started again by the next run. -/
theorem started_once_broken_off :
    let runs : List ToolRun := [.stt_create_tasks (oneRecording (.unstored "1".toList)),
      .stt_create_tasks (oneRecording (.stored "2".toList))]
    let tool := runs.foldl (runOptions ⟨"out".toList, "bucket".toList, [], by decide⟩ .unix) {}
    tool.started.countP (·.1 = "a.wav".toList) ≤ 1 + tool.unstored.countP (·.1 = "a.wav".toList) := by
  intro runs tool
  have hclean : CleanRuns (fun _ => True) runs := by
    intro calls hcalls
    simp only [runs, List.mem_cons, List.not_mem_nil, or_false, ToolRun.stt_create_tasks.injEq] at hcalls
    obtain rfl | rfl := hcalls
    · exact (clean_oneRecording "1" cleanField_ids.1 trivial).2
    · exact (clean_oneRecording "2" cleanField_ids.2 trivial).1
  obtain ⟨_, _, _, hcount⟩ := started_once ⟨"out".toList, "bucket".toList, [], by decide⟩ .unix runs hclean
  exact hcount "a.wav".toList

end runs

section transcripts

variable {cfg : Configuration} {newLine : NewLine} {keys : Text → Prop} {tool : Tool} {taskDb after : TaskDb}
  {start : FileTree Text Content} {tasks : List SkTaskModel} {w : World} {runs : List ToolRun}

theorem keys_of_sound (h : (tool.createState taskDb).Sound newLine keys) {task : SkTaskModel}
    (htask : task ∈ taskDb.tasks) : keys task.path :=
  (h.key task htask).1

theorem separateOutputs_of_sound (h : (tool.createState taskDb).Sound newLine keys)
    (hseparate : SeparateKeys cfg start keys) : SeparateOutputs cfg taskDb.tasks := by
  intro task htask other hother hne
  refine hseparate.transcripts task.path other.path (keys_of_sound h htask) (keys_of_sound h hother) fun hpath =>
    hne ?_
  exact List.inj_on_of_nodup_map taskDb.nodup htask hother hpath

theorem unobstructed_of_sound (h : (tool.createState taskDb).Sound newLine keys)
    (hseparate : SeparateKeys cfg start keys) : Unobstructed cfg start (· ∈ taskDb.tasks) :=
  ⟨fun task htask => hseparate.unobstructed.free task (keys_of_sound h htask),
    fun task other htask hother =>
      hseparate.unobstructed.others task other (keys_of_sound h htask) (keys_of_sound h hother)⟩

theorem paths_ne_nil_of_sound (h : (tool.createState taskDb).Sound newLine keys) :
    ∀ task ∈ taskDb.tasks, task.path ≠ [] :=
  fun task htask => path_ne_nil_of_isRecording (h.key task htask).2.1

/-- New tasks have no output files yet. -/
theorem World.Sound.of_subset (h : w.Sound cfg newLine tasks) (hof : w.OfTasks cfg start (· ∈ tasks))
    (hsubset : tasks ⊆ after.tasks) (hseparate : SeparateOutputs cfg after.tasks)
    (hpaths : ∀ task ∈ after.tasks, task.path ≠ []) (hfresh : ∀ task ∈ after.tasks, Fresh cfg start task) :
    w.Sound cfg newLine after.tasks := by
  constructor
  · intro task htask hsome
    obtain hstart | ⟨old, hold, htxt | hjson⟩ := hof.files _ hsome
    · rw [(hfresh task htask).1] at hstart
      cases hstart
    · have heq : task = old := by
        by_contra hne
        exact hseparate task htask old (hsubset hold) hne htxt
      rw [heq] at hsome ⊢
      exact h.own old hold hsome
    · exact absurd hjson (txtFile_ne_jsonFile (hpaths task htask) (hpaths old (hsubset hold)))
  · intro task htask response hexecuted
    exact h.executed task (hof.executed _ hexecuted) response hexecuted

theorem World.OfTasks.of_subset (h : w.OfTasks cfg start (· ∈ tasks)) (hsubset : tasks ⊆ after.tasks) :
    w.OfTasks cfg start (· ∈ after.tasks) := by
  refine ⟨fun path hpath => ?_, fun file hsome => ?_, fun entry hentry => hsubset (h.executed entry hentry)⟩
  · exact (h.directories path hpath).imp_right fun ⟨task, htask, hprefix⟩ => ⟨task, hsubset htask, hprefix⟩
  · exact (h.files file hsome).imp_right fun ⟨task, htask, hfile⟩ => ⟨task, hsubset htask, hfile⟩

/-- The tasks are sound, and the output files hold results of their own operations. -/
structure Tool.Sound (cfg : Configuration) (newLine : NewLine) (keys : Text → Prop) (start : FileTree Text Content)
    (tool : Tool) (taskDb : TaskDb) : Prop where
  create : (tool.createState taskDb).Sound newLine keys
  world : tool.world.Sound cfg newLine taskDb.tasks
  ofTasks : tool.world.OfTasks cfg start (· ∈ taskDb.tasks)

theorem Tool.Sound.ownTranscripts (h : tool.Sound cfg newLine keys start taskDb)
    (hseparate : SeparateKeys cfg start keys) : OwnTranscripts cfg newLine taskDb.tasks tool.world :=
  h.world.ownTranscripts (separateOutputs_of_sound h.create hseparate) (unobstructed_of_sound h.create hseparate)
    h.ofTasks (paths_ne_nil_of_sound h.create)

theorem Tool.Sound.runOptions (h : tool.Sound cfg newLine keys start taskDb) (hseparate : SeparateKeys cfg start keys)
    (run : ToolRun) (hrun : ∀ calls, run = .stt_create_tasks calls → calls.Clean keys) :
    ∃ after, (runOptions cfg newLine tool run).Sound cfg newLine keys start after := by
  obtain ⟨after, hcreate, hsubset⟩ := sound_runOptions h.create cfg run hrun
  cases run with
  | stt_create_tasks calls =>
    have hworld : (speechkit_batch_asr.runOptions cfg newLine tool (.stt_create_tasks calls)).world = tool.world := by
      rw [runOptions_create h.create.load]
    refine ⟨after, hcreate, ?_, ?_⟩
    · rw [hworld]
      exact h.world.of_subset h.ofTasks hsubset (separateOutputs_of_sound hcreate hseparate)
        (paths_ne_nil_of_sound hcreate) fun task htask => hseparate.fresh task (keys_of_sound hcreate htask)
    · rw [hworld]
      exact h.ofTasks.of_subset hsubset
  | stt_task_results calls =>
    rw [runOptions_results h.create.load]
    refine ⟨taskDb, h.create, ?_, ?_⟩
    · exact h.world.doTaskResults (separateOutputs_of_sound h.create hseparate) (paths_ne_nil_of_sound h.create) calls
    · exact ofTasks_doTaskResults h.ofTasks (fun _ htask => htask) newLine calls

theorem tool_sound_foldl (cfg : Configuration) (newLine : NewLine) (hseparate : SeparateKeys cfg start keys)
    (hclean : CleanRuns keys runs) :
    ∃ taskDb, (runs.foldl (runOptions cfg newLine) { world := { tree := start } }).Sound cfg newLine keys start
      taskDb := by
  induction runs using List.reverseRecOn with
  | nil =>
    exact ⟨.empty, sound_tool_init newLine keys, sound_start newLine fun _ hmem => absurd hmem List.not_mem_nil,
      ofTasks_start cfg start _⟩
  | append_singleton runs run ih =>
    obtain ⟨taskDb, hsound⟩ := ih fun calls hmem => hclean calls (List.mem_append_left _ hmem)
    rw [List.foldl_concat]
    exact hsound.runOptions hseparate run fun calls hcalls =>
      hclean calls (List.mem_append_right _ (hcalls ▸ List.mem_cons_self))

end transcripts

end solution_library.speechkit_batch_asr
