import SolutionLibrary.Library.FileTree
import SolutionLibrary.Library.Loop
import SolutionLibrary.SpeechKitBatchAsr.Recordings
import SolutionLibrary.SpeechKitBatchAsr.TasksDb

open solution_library.file_tree
open solution_library.loop
open solution_library.paths
open solution_library.store
open solution_library.text

namespace solution_library.speechkit_batch_asr

structure Configuration where
  outputPath : Text
  bucket : Text
  /-- The names that lead to the current directory. -/
  currentDirectory : List Text
  bucket_ne_nil : bucket ≠ []

/-- The answer of the Operations API: `done`, and the texts of the alternatives of
each chunk. -/
structure Operation where
  done : Option Bool
  chunks : List (List Text)

/-- What is in a file: an operation, its texts, or anything else, such as the tasks. -/
inductive Content where
  | json (jsonResponse : Operation)
  | text (text : Text)
  | other

/-- The files by their full paths, and the tasks for which `StoreResults` has been
executed, with their responses. -/
structure World where
  tree : FileTree Text Content := .empty
  executed : List (SkTaskModel × Operation) := []

def makeTaskPath (cfg : Configuration) (task : SkTaskModel) : Text :=
  combine (combine cfg.outputPath cfg.bucket) task.path

def makeTxtOutputFileName (cfg : Configuration) (task : SkTaskModel) : Text :=
  changeExtension (makeTaskPath cfg task) ".txt".toList

def makeJsonOutputFileName (cfg : Configuration) (task : SkTaskModel) : Text :=
  changeExtension (makeTaskPath cfg task) ".json".toList

/-- The file that a file name leads to. -/
def txtFile (cfg : Configuration) (task : SkTaskModel) : List Text :=
  fullPath cfg.currentDirectory (makeTxtOutputFileName cfg task)

def jsonFile (cfg : Configuration) (task : SkTaskModel) : List Text :=
  fullPath cfg.currentDirectory (makeJsonOutputFileName cfg task)

def taskDir (cfg : Configuration) (task : SkTaskModel) : List Text :=
  fullPath cfg.currentDirectory (getDirectoryName (makeTaskPath cfg task))

/-- A task is completed when its output files exist. -/
def checkCompleated (cfg : Configuration) (w : World) (task : SkTaskModel) : Bool :=
  (w.tree.files.get (txtFile cfg task)).isSome && (w.tree.files.get (jsonFile cfg task)).isSome

def extractText (newLine : NewLine) (jsonResponse : Operation) : Text :=
  jsonResponse.chunks.flatten.flatMap (· ++ newLine.text)

/-- How a request for an operation ends. -/
inductive Answer where
  | json (jsonResponse : Operation)
  | raised

/-- Whether the steps of one `StoreResults` succeed where the file tree allows them:
creating the directory and writing the two files. -/
structure StoreCalls where
  created : Bool := true
  jsonWritten : Bool := true
  txtWritten : Bool := true

/-- What one run of `DoTaskResults` meets. -/
structure RunCalls where
  answer : SkTaskModel → Answer
  store : SkTaskModel → StoreCalls := fun _ => {}

def storeResults (cfg : Configuration) (newLine : NewLine) (calls : StoreCalls) (w : World) (task : SkTaskModel)
    (jsonResponse : Operation) : World × Bool :=
  match (w.tree.createDirectory (taskDir cfg task)).filter fun _ => calls.created with
  | none => (w, true)
  | some tree =>
    match (tree.writeFile (jsonFile cfg task) (.json jsonResponse)).filter fun _ => calls.jsonWritten with
    | none => ({ w with tree }, true)
    | some tree =>
      let text := extractText newLine jsonResponse
      match (tree.writeFile (txtFile cfg task) (.text text)).filter fun _ => calls.txtWritten with
      | none => ({ w with tree }, true)
      | some tree => ({ tree, executed := w.executed ++ [(task, jsonResponse)] }, false)

/-- The body of the loop over the tasks. -/
def fetchTask (cfg : Configuration) (newLine : NewLine) (calls : RunCalls) (w : World) (task : SkTaskModel) :
    World × Bool :=
  if checkCompleated cfg w task then (w, false)
  else
    match calls.answer task with
    | .raised => (w, true)
    | .json jsonResponse =>
      match jsonResponse.done with
      | none => (w, true)
      | some false => (w, false)
      | some true => storeResults cfg newLine (calls.store task) w task jsonResponse

/-- One run in the mode `stt_task_results`. -/
def doTaskResults (cfg : Configuration) (newLine : NewLine) (tasks : List SkTaskModel) (w : World) (calls : RunCalls) :
    World :=
  (forEach (fetchTask cfg newLine calls) w tasks).1

/-- The output files of a task hold a result of its own operation. -/
def OwnResult (cfg : Configuration) (newLine : NewLine) (w : World) (task : SkTaskModel) : Prop :=
  ∃ jsonResponse, (task, jsonResponse) ∈ w.executed ∧
    w.tree.files.get (jsonFile cfg task) = some (.json jsonResponse) ∧
    w.tree.files.get (txtFile cfg task) = some (.text (extractText newLine jsonResponse))

/-- Every task is done and its operation is fetched; what stands in the way of its
output files, if anything does, is in the file tree. -/
def RunCalls.FetchesAll (calls : RunCalls) (tasks : List SkTaskModel) : Prop :=
  ∀ task ∈ tasks, calls.store task = {} ∧ ∃ jsonResponse, calls.answer task = .json jsonResponse ∧
    jsonResponse.done = some true

/-- A task is completed only when `StoreResults` has been executed for it, and once all
tasks are done and fetched, the output files of each hold its own result. -/
structure OwnTranscripts (cfg : Configuration) (newLine : NewLine) (tasks : List SkTaskModel) (w : World) : Prop where
  completed : ∀ task ∈ tasks, checkCompleated cfg w task → ∃ jsonResponse, (task, jsonResponse) ∈ w.executed
  stored : (∀ task ∈ tasks, ∃ jsonResponse, (task, jsonResponse) ∈ w.executed) →
    ∀ task ∈ tasks, OwnResult cfg newLine w task
  fetched : ∀ calls : RunCalls, calls.FetchesAll tasks →
    ∀ task ∈ tasks, OwnResult cfg newLine (doTaskResults cfg newLine tasks w calls) task

section files

variable {cfg : Configuration} {task other : SkTaskModel}

/-- The output files of a task differ only in the extension. -/
theorem exists_outputFiles (cfg : Configuration) (h : task.path ≠ []) : ∃ name,
    txtFile cfg task = taskDir cfg task ++ [name ++ ".txt".toList] ∧
      jsonFile cfg task = taskDir cfg task ++ [name ++ ".json".toList] := by
  have hseparator : '/' ∈ makeTaskPath cfg task := separator_mem_combine (combine_ne_nil _ cfg.bucket_ne_nil) h
  obtain ⟨name, hfull⟩ := exists_fullPath_changeExtension cfg.currentDirectory hseparator
  exact ⟨name, hfull _ (by decide) (by decide), hfull _ (by decide) (by decide)⟩

theorem dropLast_txtFile (h : task.path ≠ []) : (txtFile cfg task).dropLast = taskDir cfg task := by
  obtain ⟨name, htxt, _⟩ := exists_outputFiles cfg h
  rw [htxt, List.dropLast_concat]

theorem dropLast_jsonFile (h : task.path ≠ []) : (jsonFile cfg task).dropLast = taskDir cfg task := by
  obtain ⟨name, _, hjson⟩ := exists_outputFiles cfg h
  rw [hjson, List.dropLast_concat]

theorem txtFile_ne_jsonFile (h : task.path ≠ []) (hother : other.path ≠ []) :
    txtFile cfg task ≠ jsonFile cfg other := by
  obtain ⟨name, htxt, _⟩ := exists_outputFiles cfg h
  obtain ⟨name', _, hjson⟩ := exists_outputFiles cfg hother
  rw [htxt, hjson]
  intro heq
  have hname := congrArg (Option.map List.getLast?) (congrArg List.getLast? heq)
  simp at hname

theorem jsonFile_eq_iff (h : task.path ≠ []) (hother : other.path ≠ []) :
    jsonFile cfg task = jsonFile cfg other ↔ txtFile cfg task = txtFile cfg other := by
  obtain ⟨name, htxt, hjson⟩ := exists_outputFiles cfg h
  obtain ⟨name', htxt', hjson'⟩ := exists_outputFiles cfg hother
  rw [htxt, hjson, htxt', hjson']
  simp

/-- Two plain keys of recordings have the same output files exactly when they differ
in nothing but their extensions. -/
theorem txtFile_eq_iff_of_plain (cfg : Configuration) (hrecording : isRecording task.path)
    (hrecording' : isRecording other.path) (hplain : Plain task.path) (hplain' : Plain other.path) :
    txtFile cfg task = txtFile cfg other ↔ dropExtension task.path = dropExtension other.path := by
  obtain ⟨name, extension, hpath, hextension⟩ := exists_extension hrecording
  obtain ⟨name', extension', hpath', hextension'⟩ := exists_extension hrecording'
  rw [hpath] at hplain
  rw [hpath'] at hplain'
  rw [hpath, hpath', dropExtension_append _ hextension.dot hextension.separator,
    dropExtension_append _ hextension'.dot hextension'.separator, txtFile, txtFile, makeTxtOutputFileName,
    makeTxtOutputFileName, makeTaskPath, makeTaskPath, hpath, hpath']
  exact fullPath_changeExtension_eq_iff _ _ hextension hextension' (by decide) (by decide) hplain hplain'

end files

/-- Nothing in a file tree stands in the way of the output files of a task: there is
no file on the way to them, and no directory in their place. -/
structure Free (cfg : Configuration) (tree : FileTree Text Content) (task : SkTaskModel) : Prop where
  way : ∀ parent, parent <+: taskDir cfg task → tree.files.get parent = none
  txt : txtFile cfg task ∉ tree.directories
  json : jsonFile cfg task ∉ tree.directories

/-- An output file of one task is a directory on the way to those of another. -/
def Blocks (cfg : Configuration) (task other : SkTaskModel) : Prop :=
  txtFile cfg task <+: taskDir cfg other ∨ jsonFile cfg task <+: taskDir cfg other

/-- Neither the files and directories that are there at the start nor those of the
tasks stand in the way of an output file. -/
structure Unobstructed (cfg : Configuration) (start : FileTree Text Content) (tasks : SkTaskModel → Prop) : Prop where
  free : ∀ task, tasks task → Free cfg start task
  others : ∀ task other, tasks task → tasks other → ¬ Blocks cfg task other

/-- The directories that a run adds lead to the output files of its tasks, and so do
the files; what has been executed belongs to the tasks. -/
structure World.OfTasks (cfg : Configuration) (start : FileTree Text Content) (tasks : SkTaskModel → Prop) (w : World) :
    Prop where
  directories : ∀ path ∈ w.tree.directories, path ∈ start.directories ∨ ∃ task, tasks task ∧ path <+: taskDir cfg task
  files : ∀ path, (w.tree.files.get path).isSome →
    (start.files.get path).isSome ∨ ∃ task, tasks task ∧ (path = txtFile cfg task ∨ path = jsonFile cfg task)
  executed : ∀ entry ∈ w.executed, tasks entry.1

/-- What one iteration does to the file tree: the directories on the way to the output
files of the task are all that is added. -/
structure Within (cfg : Configuration) (task : SkTaskModel) (before after : FileTree Text Content) : Prop where
  grows : before.directories ⊆ after.directories
  added : ∀ path ∈ after.directories, path ∈ before.directories ∨ path <+: taskDir cfg task

/-- What one iteration does: it leaves the files, it writes the JSON, or both files. -/
inductive Fetched (cfg : Configuration) (newLine : NewLine) (calls : RunCalls) (w : World) (task : SkTaskModel) :
    World × Bool → Prop where
  | kept (tree : FileTree Text Content) (raised : Bool) (hfiles : tree.files = w.tree.files)
      (hwithin : Within cfg task w.tree tree) : Fetched cfg newLine calls w task ({ w with tree }, raised)
  | json (tree : FileTree Text Content) (response : Operation) (hnot : checkCompleated cfg w task = false)
      (hfiles : tree.files = w.tree.files.put (jsonFile cfg task) (.json response))
      (hwithin : Within cfg task w.tree tree) : Fetched cfg newLine calls w task ({ w with tree }, true)
  | both (tree : FileTree Text Content) (response : Operation) (hanswer : calls.answer task = .json response)
      (hdone : response.done = some true)
      (hfiles : tree.files = (w.tree.files.put (jsonFile cfg task) (.json response)).put (txtFile cfg task)
        (.text (extractText newLine response)))
      (hwithin : Within cfg task w.tree tree) :
      Fetched cfg newLine calls w task ({ tree, executed := w.executed ++ [(task, response)] }, false)

instance (cfg : Configuration) (task other : SkTaskModel) : Decidable (Blocks cfg task other) :=
  inferInstanceAs (Decidable (_ ∨ _))

section runs

variable {cfg : Configuration} {newLine : NewLine} {calls : RunCalls} {tasks : List SkTaskModel} {w : World}
  {start : FileTree Text Content} {allowed : SkTaskModel → Prop} {task other : SkTaskModel} {response : Operation}

theorem Within.refl (tree : FileTree Text Content) : Within cfg task tree tree :=
  ⟨List.Subset.refl _, fun _ h => .inl h⟩

theorem Within.of_createDirectory {before after : FileTree Text Content}
    (h : before.createDirectory (taskDir cfg task) = some after) : Within cfg task before after :=
  ⟨fun _ hpath => (FileTree.mem_directories_createDirectory h).mpr (.inl hpath),
    fun _ hpath => (FileTree.mem_directories_createDirectory h).mp hpath⟩

theorem Within.writeFile {before between after : FileTree Text Content} (h : Within cfg task before between)
    {path : List Text} {content : Content} (hwrite : between.writeFile path content = some after) :
    Within cfg task before after := by
  have hsame := FileTree.directories_writeFile hwrite
  exact ⟨hsame ▸ h.grows, hsame ▸ h.added⟩

theorem fetched_storeResults (hnot : checkCompleated cfg w task = false) (hanswer : calls.answer task = .json response)
    (hdone : response.done = some true) : Fetched cfg newLine calls w task
      (storeResults cfg newLine (calls.store task) w task response) := by
  rw [storeResults]
  split
  · exact .kept w.tree true rfl (.refl _)
  · next tree hcreate =>
    have hcreated := (Option.filter_eq_some_iff.mp hcreate).1
    have hwithin := Within.of_createDirectory hcreated
    have hfiles := FileTree.files_createDirectory hcreated
    split
    · exact .kept tree true hfiles hwithin
    · next jsonTree hjson =>
      have hjsonWritten := (Option.filter_eq_some_iff.mp hjson).1
      have hjsonFiles := FileTree.files_writeFile hjsonWritten
      rw [hfiles] at hjsonFiles
      dsimp only
      split
      · exact .json jsonTree response hnot hjsonFiles (hwithin.writeFile hjsonWritten)
      · next txtTree htxt =>
        have htxtWritten := (Option.filter_eq_some_iff.mp htxt).1
        have htxtFiles := FileTree.files_writeFile htxtWritten
        rw [hjsonFiles] at htxtFiles
        exact .both txtTree response hanswer hdone htxtFiles ((hwithin.writeFile hjsonWritten).writeFile htxtWritten)

theorem fetched_fetchTask (cfg : Configuration) (newLine : NewLine) (calls : RunCalls) (w : World)
    (task : SkTaskModel) : Fetched cfg newLine calls w task (fetchTask cfg newLine calls w task) := by
  have hkept (raised : Bool) : Fetched cfg newLine calls w task (w, raised) := .kept w.tree raised rfl (.refl _)
  rw [fetchTask]
  split
  · exact hkept false
  · next hcompleted =>
    cases hanswer : calls.answer task with
    | raised => exact hkept true
    | json response =>
      dsimp only
      cases hdone : response.done with
      | none => exact hkept true
      | some done =>
        cases done with
        | false => exact hkept false
        | true => exact fetched_storeResults (Bool.eq_false_iff.mpr hcompleted) hanswer hdone

/-- A run only adds to what has been executed and stored. -/
structure World.Grows (before after : World) : Prop where
  executed : ∀ entry ∈ before.executed, entry ∈ after.executed
  files : ∀ file, (before.tree.files.get file).isSome → (after.tree.files.get file).isSome
  directories : before.tree.directories ⊆ after.tree.directories

theorem World.Grows.refl (w : World) : w.Grows w :=
  ⟨fun _ h => h, fun _ h => h, List.Subset.refl _⟩

theorem World.Grows.trans {before between after : World} (h : before.Grows between) (hrest : between.Grows after) :
    before.Grows after :=
  ⟨fun entry hentry => hrest.executed entry (h.executed entry hentry),
    fun file hfile => hrest.files file (h.files file hfile), List.Subset.trans h.directories hrest.directories⟩

theorem isSome_put {files : Store (List Text) Content} {file written : List Text} {content : Content}
    (h : (files.get file).isSome) : ((files.put written content).get file).isSome := by
  by_cases hfile : file = written
  · rw [hfile, Store.get_put_self]
    rfl
  · rwa [Store.get_put_of_ne _ _ hfile]

theorem Fetched.grows {result : World × Bool} (h : Fetched cfg newLine calls w task result) : w.Grows result.1 := by
  cases h with
  | kept tree raised hfiles hwithin => exact ⟨fun _ h => h, fun _ h => hfiles ▸ h, hwithin.grows⟩
  | json tree response hnot hfiles hwithin =>
    exact ⟨fun _ h => h, fun _ h => hfiles ▸ isSome_put h, hwithin.grows⟩
  | both tree response hanswer hdone hfiles hwithin =>
    exact ⟨fun _ h => List.mem_append_left _ h, fun _ h => hfiles ▸ isSome_put (isSome_put h), hwithin.grows⟩

theorem grows_fetchTask (cfg : Configuration) (newLine : NewLine) (calls : RunCalls) (w : World) (task : SkTaskModel) :
    w.Grows (fetchTask cfg newLine calls w task).1 :=
  (fetched_fetchTask cfg newLine calls w task).grows

theorem grows_doTaskResults (cfg : Configuration) (newLine : NewLine) (tasks : List SkTaskModel) (w : World)
    (calls : RunCalls) : w.Grows (doTaskResults cfg newLine tasks w calls) :=
  forEach_keeps (World.Grows w) (fun s t _ h => h.trans (grows_fetchTask cfg newLine calls s t)) (.refl w)

theorem Fetched.ofTasks {result : World × Bool} (h : Fetched cfg newLine calls w task result)
    (hw : w.OfTasks cfg start allowed) (htask : allowed task) : result.1.OfTasks cfg start allowed := by
  have hdirectories {tree : FileTree Text Content} (hwithin : Within cfg task w.tree tree) (path : List Text)
      (hpath : path ∈ tree.directories) :
      path ∈ start.directories ∨ ∃ task, allowed task ∧ path <+: taskDir cfg task := by
    obtain hbefore | hprefix := hwithin.added path hpath
    · exact hw.directories path hbefore
    · exact .inr ⟨task, htask, hprefix⟩
  have hput {files : Store (List Text) Content} {written : List Text} {content : Content}
      (hfiles : ∀ path, (files.get path).isSome → (start.files.get path).isSome ∨
        ∃ task, allowed task ∧ (path = txtFile cfg task ∨ path = jsonFile cfg task))
      (hwritten : written = txtFile cfg task ∨ written = jsonFile cfg task) (path : List Text)
      (hpath : ((files.put written content).get path).isSome) : (start.files.get path).isSome ∨
        ∃ task, allowed task ∧ (path = txtFile cfg task ∨ path = jsonFile cfg task) := by
    by_cases heq : path = written
    · exact .inr ⟨task, htask, heq ▸ hwritten⟩
    · rw [Store.get_put_of_ne _ _ heq] at hpath
      exact hfiles path hpath
  cases h with
  | kept tree raised hfiles hwithin => exact ⟨hdirectories hwithin, hfiles ▸ hw.files, hw.executed⟩
  | json tree response hnot hfiles hwithin =>
    exact ⟨hdirectories hwithin, hfiles ▸ hput hw.files (.inr rfl), hw.executed⟩
  | both tree response hanswer hdone hfiles hwithin =>
    refine ⟨hdirectories hwithin, hfiles ▸ hput (hput hw.files (.inr rfl)) (.inl rfl), ?_⟩
    exact List.forall_mem_append.mpr ⟨hw.executed, List.forall_mem_singleton.mpr htask⟩

theorem ofTasks_doTaskResults (hw : w.OfTasks cfg start allowed) (htasks : ∀ task ∈ tasks, allowed task)
    (newLine : NewLine) (calls : RunCalls) : (doTaskResults cfg newLine tasks w calls).OfTasks cfg start allowed :=
  forEach_keeps (World.OfTasks cfg start allowed)
    (fun s t ht hs => (fetched_fetchTask cfg newLine calls s t).ofTasks hs (htasks t ht)) hw

theorem ofTasks_start (cfg : Configuration) (start : FileTree Text Content) (allowed : SkTaskModel → Prop) :
    ({ tree := start } : World).OfTasks cfg start allowed :=
  ⟨fun _ h => .inl h, fun _ h => .inl h, by simp⟩

/-- What the tasks have written stays out of their way. -/
theorem Unobstructed.free_of_ofTasks (h : Unobstructed cfg start allowed) (hw : w.OfTasks cfg start allowed)
    (htask : allowed task) : Free cfg w.tree task := by
  obtain ⟨hway, htxt, hjson⟩ := h.free task htask
  have hplace {file : List Text} (hstart : file ∉ start.directories)
      (hothers : ∀ other, allowed other → ¬ file <+: taskDir cfg other) : file ∉ w.tree.directories := by
    intro hfile
    obtain hbefore | ⟨other, hother, hprefix⟩ := hw.directories file hfile
    · exact hstart hbefore
    · exact hothers other hother hprefix
  refine ⟨fun parent hparent => ?_, ?_, ?_⟩
  · refine Option.not_isSome_iff_eq_none.mp fun hsome => ?_
    obtain hbefore | ⟨other, hother, rfl | rfl⟩ := hw.files parent hsome
    · rw [hway parent hparent] at hbefore
      cases hbefore
    · exact h.others other task hother htask (.inl hparent)
    · exact h.others other task hother htask (.inr hparent)
  · exact hplace htxt fun other hother hprefix => h.others task other htask hother (.inl hprefix)
  · exact hplace hjson fun other hother hprefix => h.others task other htask hother (.inr hprefix)

/-- In an empty file tree only the tasks can stand in each other's way. -/
theorem unobstructed_empty (hpaths : ∀ task, allowed task → task.path ≠ [])
    (hothers : ∀ task other, allowed task → allowed other → ¬ Blocks cfg task other) :
    Unobstructed cfg .empty allowed := by
  refine ⟨fun task htask => ?_, hothers⟩
  obtain ⟨name, htxt, hjson⟩ := exists_outputFiles cfg (hpaths task htask)
  refine ⟨fun _ _ => rfl, ?_, ?_⟩
  · rw [htxt]
    simp [FileTree.empty]
  · rw [hjson]
    simp [FileTree.empty]

theorem checkCompleated_iff : checkCompleated cfg w task ↔
    (w.tree.files.get (txtFile cfg task)).isSome ∧ (w.tree.files.get (jsonFile cfg task)).isSome := by
  rw [checkCompleated, Bool.and_eq_true]

/-- Tasks with the same output files are completed together. -/
theorem checkCompleated_eq (w : World) (htxt : txtFile cfg task = txtFile cfg other)
    (hjson : jsonFile cfg task = jsonFile cfg other) : checkCompleated cfg w task = checkCompleated cfg w other := by
  rw [checkCompleated, checkCompleated, htxt, hjson]

theorem World.Grows.checkCompleated {after : World} (h : w.Grows after) (hcompleted : checkCompleated cfg w task) :
    checkCompleated cfg after task := by
  rw [checkCompleated_iff] at hcompleted ⊢
  exact hcompleted.imp (h.files _) (h.files _)

/-- Where nothing stands in the way, `StoreResults` returns. -/
theorem storeResults_of_free (hfree : Free cfg w.tree task) (hpath : task.path ≠ []) (newLine : NewLine)
    (response : Operation) : ∃ tree, storeResults cfg newLine {} w task response =
      ({ tree, executed := w.executed ++ [(task, response)] }, false) ∧
        (tree.files.get (txtFile cfg task)).isSome ∧ (tree.files.get (jsonFile cfg task)).isSome := by
  obtain ⟨name, htxt, hjson⟩ := exists_outputFiles cfg hpath
  have hlonger (segment : Text) : ¬ taskDir cfg task ++ [segment] <+: taskDir cfg task := by
    intro hprefix
    have hlength := hprefix.length_le
    rw [List.length_append, List.length_singleton] at hlength
    omega
  obtain ⟨created, hcreated⟩ := Option.isSome_iff_exists.mp (FileTree.isSome_createDirectory_iff.mpr hfree.way)
  have hdirectories (path : List Text) :
      path ∈ created.directories ↔ path ∈ w.tree.directories ∨ path <+: taskDir cfg task :=
    FileTree.mem_directories_createDirectory hcreated
  have hdirectory : taskDir cfg task ∈ created.directories := (hdirectories _).mpr (.inr List.prefix_rfl)
  obtain ⟨jsonTree, hjsonTree⟩ : ∃ tree, created.writeFile (jsonFile cfg task) (.json response) = some tree := by
    refine Option.isSome_iff_exists.mp (FileTree.isSome_writeFile_iff.mpr ⟨?_, ?_⟩)
    · exact (dropLast_jsonFile hpath).symm ▸ hdirectory
    · exact mt (hdirectories _).mp (not_or.mpr ⟨hfree.json, hjson ▸ hlonger _⟩)
  have hsame := FileTree.directories_writeFile hjsonTree
  obtain ⟨txtTree, htxtTree⟩ :
      ∃ tree, jsonTree.writeFile (txtFile cfg task) (.text (extractText newLine response)) = some tree := by
    refine Option.isSome_iff_exists.mp (FileTree.isSome_writeFile_iff.mpr ?_)
    rw [hsame, dropLast_txtFile hpath]
    exact ⟨hdirectory, mt (hdirectories _).mp (not_or.mpr ⟨hfree.txt, htxt ▸ hlonger _⟩)⟩
  refine ⟨txtTree, ?_, ?_, ?_⟩
  · simp [storeResults, Option.filter, hcreated, hjsonTree, htxtTree]
  · rw [FileTree.files_writeFile htxtTree, Store.get_put_self]
    rfl
  · rw [FileTree.files_writeFile htxtTree, FileTree.files_writeFile hjsonTree]
    refine isSome_put ?_
    rw [Store.get_put_self]
    rfl

/-- A task that is fetched is completed by its iteration, where nothing stands in the
way. -/
theorem fetchTask_fetched (hfree : Free cfg w.tree task) (hpath : task.path ≠ []) (hstore : calls.store task = {})
    (hanswer : calls.answer task = .json response) (hdone : response.done = some true) :
    (fetchTask cfg newLine calls w task).2 = false ∧
      checkCompleated cfg (fetchTask cfg newLine calls w task).1 task := by
  obtain ⟨tree, hstored, hfiles⟩ := storeResults_of_free hfree hpath newLine response
  rw [fetchTask]
  split
  · next hcompleted => exact ⟨rfl, hcompleted⟩
  · simp only [hanswer, hdone, hstore, hstored]
    exact ⟨trivial, checkCompleated_iff.mpr hfiles⟩

/-- In a run in which nothing raises, every task that is fetched is completed. -/
theorem checkCompleated_doTaskResults (hunobstructed : Unobstructed cfg start allowed)
    (hw : w.OfTasks cfg start allowed) (htasks : ∀ task ∈ tasks, allowed task)
    (hraised : ∀ t ∈ tasks, ∀ w : World, Free cfg w.tree t → (fetchTask cfg newLine calls w t).2 = false)
    (htask : task ∈ tasks) (hpath : task.path ≠ []) (hstore : calls.store task = {})
    (hanswer : calls.answer task = .json response) (hdone : response.done = some true) :
    checkCompleated cfg (doTaskResults cfg newLine tasks w calls) task := by
  unfold doTaskResults
  induction tasks generalizing w with
  | nil => cases htask
  | cons t tasks ih =>
    obtain ⟨ht, hrest⟩ := List.forall_mem_cons.mp hraised
    obtain ⟨hallowed, htasks⟩ := List.forall_mem_cons.mp htasks
    have hfree := hunobstructed.free_of_ofTasks hw hallowed
    rw [forEach_cons (ht w hfree)]
    obtain rfl | htask := List.mem_cons.mp htask
    · refine forEach_keeps (fun s : World => checkCompleated cfg s task)
        (fun s u _ hs => (grows_fetchTask cfg newLine calls s u).checkCompleated hs) ?_
      exact (fetchTask_fetched hfree hpath hstore hanswer hdone).2
    · exact ih ((fetched_fetchTask cfg newLine calls w t).ofTasks hw hallowed) htasks hrest htask

end runs

/-- Different tasks have different output files. -/
def SeparateOutputs (cfg : Configuration) (tasks : List SkTaskModel) : Prop :=
  ∀ task ∈ tasks, ∀ other ∈ tasks, task ≠ other → txtFile cfg task ≠ txtFile cfg other

/-- No output file of a task is there. -/
def Fresh (cfg : Configuration) (start : FileTree Text Content) (task : SkTaskModel) : Prop :=
  start.files.get (txtFile cfg task) = none ∧ start.files.get (jsonFile cfg task) = none

/-- What is in the output files of a task comes from its own operation. -/
structure World.Sound (cfg : Configuration) (newLine : NewLine) (tasks : List SkTaskModel) (w : World) : Prop where
  own : ∀ task ∈ tasks, (w.tree.files.get (txtFile cfg task)).isSome → OwnResult cfg newLine w task
  executed : ∀ task ∈ tasks, ∀ response, (task, response) ∈ w.executed → (w.tree.files.get (txtFile cfg task)).isSome

section sound

variable {cfg : Configuration} {newLine : NewLine} {tasks : List SkTaskModel} {w after : World}
  {start : FileTree Text Content} {calls : RunCalls} {task other : SkTaskModel} {response : Operation}

theorem OwnResult.grows (h : OwnResult cfg newLine w task) (hgrows : w.Grows after)
    (hjson : after.tree.files.get (jsonFile cfg task) = w.tree.files.get (jsonFile cfg task))
    (htxt : after.tree.files.get (txtFile cfg task) = w.tree.files.get (txtFile cfg task)) :
    OwnResult cfg newLine after task := by
  obtain ⟨response, hexecuted, hresponse, htext⟩ := h
  exact ⟨response, hgrows.executed _ hexecuted, hjson.trans hresponse, htxt.trans htext⟩

theorem OwnResult.checkCompleated (h : OwnResult cfg newLine w task) : checkCompleated cfg w task := by
  obtain ⟨response, _, hresponse, htext⟩ := h
  rw [checkCompleated_iff, hresponse, htext]
  exact ⟨rfl, rfl⟩

/-- An iteration writes only the output files of its own task. -/
theorem Fetched.get_of_ne {result : World × Bool} (h : Fetched cfg newLine calls w task result) {file : List Text}
    (hjson : file ≠ jsonFile cfg task) (htxt : file ≠ txtFile cfg task) :
    result.1.tree.files.get file = w.tree.files.get file := by
  cases h with
  | kept tree raised hfiles hwithin => exact congrArg (·.get file) hfiles
  | json tree response hnot hfiles hwithin =>
    rw [hfiles]
    exact Store.get_put_of_ne _ _ hjson
  | both tree response hanswer hdone hfiles hwithin =>
    rw [hfiles]
    exact (Store.get_put_of_ne _ _ htxt).trans (Store.get_put_of_ne _ _ hjson)

/-- An iteration leaves the output files of the other tasks as they are. -/
theorem World.Sound.own_other (h : w.Sound cfg newLine tasks) (hseparate : SeparateOutputs cfg tasks)
    (hpaths : ∀ t ∈ tasks, t.path ≠ []) (calls : RunCalls) (htask : task ∈ tasks) (hother : other ∈ tasks)
    (hne : other ≠ task) (hsome : ((fetchTask cfg newLine calls w task).1.tree.files.get (txtFile cfg other)).isSome) :
    OwnResult cfg newLine (fetchTask cfg newLine calls w task).1 other := by
  have htxt : txtFile cfg other ≠ txtFile cfg task := hseparate other hother task htask hne
  have hjson : jsonFile cfg other ≠ jsonFile cfg task :=
    mt (jsonFile_eq_iff (hpaths other hother) (hpaths task htask)).mp htxt
  have hfetched := fetched_fetchTask cfg newLine calls w task
  have htxtSame := hfetched.get_of_ne (txtFile_ne_jsonFile (hpaths other hother) (hpaths task htask)) htxt
  have hjsonSame := hfetched.get_of_ne hjson (txtFile_ne_jsonFile (hpaths task htask) (hpaths other hother)).symm
  rw [htxtSame] at hsome
  exact (h.own other hother hsome).grows (grows_fetchTask cfg newLine calls w task) hjsonSame htxtSame

/-- An iteration stores a result of its own task, or none. -/
theorem World.Sound.own_self (h : w.Sound cfg newLine tasks) (hpaths : ∀ t ∈ tasks, t.path ≠ [])
    (htask : task ∈ tasks) {result : World × Bool} (hfetched : Fetched cfg newLine calls w task result)
    (hsome : (result.1.tree.files.get (txtFile cfg task)).isSome) : OwnResult cfg newLine result.1 task := by
  have hne : txtFile cfg task ≠ jsonFile cfg task := txtFile_ne_jsonFile (hpaths task htask) (hpaths task htask)
  have hgrows := hfetched.grows
  cases hfetched with
  | kept tree raised hfiles hwithin =>
    rw [hfiles] at hsome
    exact (h.own task htask hsome).grows hgrows (by rw [hfiles]) (by rw [hfiles])
  | json tree response hnot hfiles hwithin =>
    -- the text was there before, and so the task was completed
    rw [hfiles, Store.get_put_of_ne _ _ hne] at hsome
    rw [(h.own task htask hsome).checkCompleated] at hnot
    cases hnot
  | both tree response hanswer hdone hfiles hwithin =>
    refine ⟨response, List.mem_append_right _ (List.mem_singleton_self _), ?_, ?_⟩
    · rw [hfiles]
      exact (Store.get_put_of_ne _ _ hne.symm).trans (Store.get_put_self _ _ _)
    · rw [hfiles]
      exact Store.get_put_self _ _ _

theorem Fetched.executed {result : World × Bool} (h : Fetched cfg newLine calls w task result)
    (hexecuted : (other, response) ∈ result.1.executed) : (other, response) ∈ w.executed ∨
      other = task ∧ (result.1.tree.files.get (txtFile cfg task)).isSome := by
  cases h with
  | kept => exact .inl hexecuted
  | json => exact .inl hexecuted
  | both tree response hanswer hdone hfiles hwithin =>
    obtain hold | hnew := List.mem_append.mp hexecuted
    · exact .inl hold
    · cases List.mem_singleton.mp hnew
      refine .inr ⟨rfl, ?_⟩
      rw [hfiles, Store.get_put_self]
      rfl

theorem World.Sound.fetchTask (h : w.Sound cfg newLine tasks) (hseparate : SeparateOutputs cfg tasks)
    (hpaths : ∀ t ∈ tasks, t.path ≠ []) (calls : RunCalls) (htask : task ∈ tasks) :
    (fetchTask cfg newLine calls w task).1.Sound cfg newLine tasks := by
  have hfetched := fetched_fetchTask cfg newLine calls w task
  refine ⟨fun other hother hsome => ?_, fun other hother response hexecuted => ?_⟩
  · by_cases hne : other = task
    · subst hne
      exact h.own_self hpaths htask hfetched hsome
    · exact h.own_other hseparate hpaths calls htask hother hne hsome
  · obtain hold | ⟨rfl, hsome⟩ := hfetched.executed hexecuted
    · exact hfetched.grows.files _ (h.executed other hother response hold)
    · exact hsome

theorem World.Sound.doTaskResults (h : w.Sound cfg newLine tasks) (hseparate : SeparateOutputs cfg tasks)
    (hpaths : ∀ t ∈ tasks, t.path ≠ []) (calls : RunCalls) :
    (doTaskResults cfg newLine tasks w calls).Sound cfg newLine tasks :=
  forEach_keeps (World.Sound cfg newLine tasks) (fun _ _ htask hs => hs.fetchTask hseparate hpaths calls htask) h

theorem sound_start (newLine : NewLine) (hfresh : ∀ task ∈ tasks, Fresh cfg start task) :
    ({ tree := start } : World).Sound cfg newLine tasks := by
  refine ⟨fun task htask hsome => ?_, fun _ _ _ hexecuted => (by cases hexecuted)⟩
  rw [(hfresh task htask).1] at hsome
  cases hsome

/-- Every task is completed by a run that fetches them all. -/
theorem checkCompleated_of_fetchesAll (hunobstructed : Unobstructed cfg start (· ∈ tasks))
    (hw : w.OfTasks cfg start (· ∈ tasks)) (hpaths : ∀ t ∈ tasks, t.path ≠ []) (hcalls : calls.FetchesAll tasks)
    (htask : task ∈ tasks) : checkCompleated cfg (doTaskResults cfg newLine tasks w calls) task := by
  obtain ⟨hstore, response, hanswer, hdone⟩ := hcalls task htask
  refine checkCompleated_doTaskResults hunobstructed hw (fun _ h => h) (fun t ht s hfree => ?_) htask
    (hpaths task htask) hstore hanswer hdone
  obtain ⟨hstore, response, hanswer, hdone⟩ := hcalls t ht
  exact (fetchTask_fetched hfree (hpaths t ht) hstore hanswer hdone).1

theorem World.Sound.ownTranscripts (h : w.Sound cfg newLine tasks) (hseparate : SeparateOutputs cfg tasks)
    (hunobstructed : Unobstructed cfg start (· ∈ tasks)) (hw : w.OfTasks cfg start (· ∈ tasks))
    (hpaths : ∀ t ∈ tasks, t.path ≠ []) : OwnTranscripts cfg newLine tasks w := by
  have hcompleted {s : World} (hs : s.Sound cfg newLine tasks) {task : SkTaskModel} (htask : task ∈ tasks)
      (hcompleted : checkCompleated cfg s task) : OwnResult cfg newLine s task :=
    hs.own task htask (checkCompleated_iff.mp hcompleted).1
  refine ⟨fun task htask hcompleat => ?_, fun hexecuted task htask => ?_, fun calls hcalls task htask => ?_⟩
  · obtain ⟨response, hexecuted, _⟩ := hcompleted h htask hcompleat
    exact ⟨response, hexecuted⟩
  · obtain ⟨response, hresponse⟩ := hexecuted task htask
    exact h.own task htask (h.executed task htask response hresponse)
  · exact hcompleted (h.doTaskResults hseparate hpaths calls) htask
      (checkCompleated_of_fetchesAll hunobstructed hw hpaths hcalls htask)

/-- A run in which every task is done. -/
def allDone : RunCalls where
  answer _ := .json ⟨some true, []⟩

/-- A run in which one task is done and all others are in progress. -/
def onlyDone (task : SkTaskModel) : RunCalls where
  answer t := .json ⟨some (t = task), []⟩

/-- Output files that have all been stored do not stand in each other's way. -/
theorem unobstructed_of_stored (hgrows : ({ tree := start } : World).Grows w) (hpaths : ∀ t ∈ tasks, t.path ≠ [])
    (hstored : ∀ task ∈ tasks, OwnResult cfg newLine w task) : Unobstructed cfg start (· ∈ tasks) := by
  have htxt (task : SkTaskModel) (htask : task ∈ tasks) : (w.tree.files.get (txtFile cfg task)).isSome :=
    (checkCompleated_iff.mp (hstored task htask).checkCompleated).1
  have hjson (task : SkTaskModel) (htask : task ∈ tasks) : (w.tree.files.get (jsonFile cfg task)).isSome :=
    (checkCompleated_iff.mp (hstored task htask).checkCompleated).2
  have hway {file : List Text} (hfile : (w.tree.files.get file).isSome) {other : SkTaskModel} (hother : other ∈ tasks) :
      ¬ file <+: taskDir cfg other := by
    rw [← dropLast_txtFile (hpaths other hother)]
    exact FileTree.not_prefix hfile (htxt other hother)
  have hplace {file : List Text} (hfile : (w.tree.files.get file).isSome) : file ∉ start.directories := by
    intro hdirectory
    rw [w.tree.disjoint file (hgrows.directories hdirectory)] at hfile
    cases hfile
  refine ⟨fun task htask => ⟨fun parent hparent => ?_, hplace (htxt task htask), hplace (hjson task htask)⟩,
    fun task other htask hother hblocks => ?_⟩
  · refine Option.not_isSome_iff_eq_none.mp fun hsome => ?_
    exact hway (hgrows.files parent hsome) htask hparent
  · obtain hprefix | hprefix := hblocks
    · exact hway (htxt task htask) hother hprefix
    · exact hway (hjson task htask) hother hprefix

theorem fetchTask_onlyDone (task : SkTaskModel) {t : SkTaskModel} (hfree : Free cfg w.tree t) (hpath : t.path ≠ []) :
    (fetchTask cfg newLine (onlyDone task) w t).2 = false := by
  by_cases ht : t = task
  · exact (fetchTask_fetched hfree hpath rfl rfl (by simp [ht])).1
  · rw [fetchTask]
    split
    · rfl
    · simp [onlyDone, ht]

/-- In such a run no other task is executed. -/
theorem executed_doTaskResults (cfg : Configuration) (newLine : NewLine) (start : FileTree Text Content)
    (tasks : List SkTaskModel) (task : SkTaskModel) :
    ∀ entry ∈ (doTaskResults cfg newLine tasks { tree := start } (onlyDone task)).executed, entry.1 = task := by
  refine forEach_keeps (fun s : World => ∀ entry ∈ s.executed, entry.1 = task) (fun s t _ hs => ?_) (by simp)
  have hfetched := fetched_fetchTask cfg newLine (onlyDone task) s t
  generalize fetchTask cfg newLine (onlyDone task) s t = result at hfetched ⊢
  cases hfetched with
  | kept => exact hs
  | json => exact hs
  | both tree response hanswer hdone hfiles hwithin =>
    cases hanswer
    refine List.forall_mem_append.mpr ⟨hs, List.forall_mem_singleton.mpr ?_⟩
    simpa using hdone

theorem checkCompleated_onlyDone (hunobstructed : Unobstructed cfg start (· ∈ tasks))
    (hpaths : ∀ t ∈ tasks, t.path ≠ []) (htask : task ∈ tasks) :
    checkCompleated cfg (doTaskResults cfg newLine tasks { tree := start } (onlyDone task)) task :=
  checkCompleated_doTaskResults hunobstructed (ofTasks_start cfg start _) (fun _ h => h)
    (fun t ht _ hfree => fetchTask_onlyDone task hfree (hpaths t ht)) htask (hpaths task htask) rfl rfl (by simp)

end sound

/-- A transcript in the place of a directory. -/
example : Blocks ⟨"out".toList, "bucket".toList, [], by decide⟩ ⟨"a.wav".toList, none, none⟩
    ⟨"a.txt/b.wav".toList, none, none⟩ := by
  decide

end solution_library.speechkit_batch_asr
