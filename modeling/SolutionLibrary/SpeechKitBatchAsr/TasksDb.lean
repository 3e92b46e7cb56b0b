import Mathlib.Data.List.Nodup
import SolutionLibrary.Library.Text
import SolutionLibrary.Library.Traversal

open solution_library.text
open solution_library.traversal

namespace solution_library.speechkit_batch_asr

/-- `char.IsWhiteSpace`. -/
def isWhiteSpace (c : Char) : Bool :=
  (0x9 ≤ c.toNat ∧ c.toNat ≤ 0xD) ∨ (0x2000 ≤ c.toNat ∧ c.toNat ≤ 0x200A) ∨
    c.toNat ∈ [0x20, 0x85, 0xA0, 0x1680, 0x2028, 0x2029, 0x202F, 0x205F, 0x3000]

/-- `Environment.NewLine`. -/
inductive NewLine where
  | unix
  | windows

def NewLine.text : NewLine → Text
  | .unix => ['\n']
  | .windows => ['\r', '\n']

/-- A task. `none` is `null`. -/
structure SkTaskModel where
  path : Text
  audioUrl : Option Text
  taskId : Option Text
  deriving DecidableEq

/-- The dictionary of the tasks by their paths, in the order of insertion. -/
structure TaskDb where
  tasks : List SkTaskModel
  nodup : (tasks.map SkTaskModel.path).Nodup

def TaskDb.empty : TaskDb :=
  ⟨[], List.nodup_nil⟩

def TaskDb.find (db : TaskDb) (path : Text) : Option SkTaskModel :=
  db.tasks.find? (·.path = path)

def TaskDb.exist (db : TaskDb) (task : SkTaskModel) : Prop :=
  task.path ∈ db.tasks.map SkTaskModel.path

instance (db : TaskDb) (task : SkTaskModel) : Decidable (db.exist task) :=
  inferInstanceAs (Decidable (_ ∈ _))

def TaskDb.insert (db : TaskDb) (task : SkTaskModel) (h : ¬ db.exist task) : TaskDb where
  tasks := db.tasks ++ [task]
  nodup := by
    rw [List.map_append, List.map_singleton, ← List.concat_eq_append]
    exact List.Nodup.concat h db.nodup

inductive Raised where
  | indexOutOfRange
  | duplicateKey

/-- `Dictionary.Add`. -/
def TaskDb.add (db : TaskDb) (task : SkTaskModel) : Except Raised TaskDb :=
  if h : db.exist task then .error .duplicateKey else .ok (db.insert task h)

/-- The database with the content of its file. -/
structure SkTaskDb where
  file : Option Text
  taskDb : TaskDb

/-- A line of the file; `null` is written as an empty text. -/
def SkTaskModel.line (task : SkTaskModel) : Text :=
  task.path ++ ';' :: ' ' :: (task.audioUrl.getD [] ++ ';' :: ' ' :: task.taskId.getD [])

def storeTask (newLine : NewLine) (db : SkTaskDb) (task : SkTaskModel) : SkTaskDb :=
  if h : db.taskDb.exist task then db
  else ⟨some (db.file.getD [] ++ (task.line ++ newLine.text)), db.taskDb.insert task h⟩

/-- The properties of a task are set by position. -/
def splitAndFill (line : Text) : Except Raised SkTaskModel :=
  match (line.splitOn ';').map (trim isWhiteSpace) with
  | [path] => .ok ⟨path, none, none⟩
  | [path, audioUrl] => .ok ⟨path, some audioUrl, none⟩
  | [path, audioUrl, taskId] => .ok ⟨path, some audioUrl, some taskId⟩
  | _ => .error .indexOutOfRange

/-- `File.ReadAllLines` drops a byte order mark. -/
def readAllLines : Text → List Text
  | '\uFEFF' :: text => lines text
  | text => lines text

def loadTasksDbFile : Option Text → Except Raised TaskDb
  | none => .ok .empty
  | some text => do
    let tasks ← (readAllLines text).mapM splitAndFill
    tasks.foldlM TaskDb.add .empty

/-- After a restart the database is read from its file, and it is the same map. -/
def Reloads (db : SkTaskDb) : Prop :=
  ∃ taskDb, loadTasksDbFile db.file = .ok taskDb ∧ ∀ path, taskDb.find path = db.taskDb.find path

/-- A field that is neither split nor broken. -/
def Unseparated (field : Text) : Prop :=
  ∀ c ∈ field, c ≠ ';' ∧ isLineBreak c = false

/-- A field that is read as it was written. -/
structure CleanField (field : Text) : Prop where
  unseparated : Unseparated field
  trimmed : trim isWhiteSpace field = field

structure SkTaskModel.Clean (task : SkTaskModel) : Prop where
  path : CleanField task.path
  audioUrl : ∃ audioUrl, task.audioUrl = some audioUrl ∧ CleanField audioUrl
  taskId : ∃ taskId, task.taskId = some taskId ∧ CleanField taskId

/-- A task is stored when no task with its path came before it. -/
def Stored (tasks : List SkTaskModel) (task : SkTaskModel) : Prop :=
  ∃ before after, tasks = before ++ task :: after ∧ ∀ other ∈ before, other.path ≠ task.path

/-- No separator stands in a field of a task. -/
structure SkTaskModel.Unseparated (task : SkTaskModel) : Prop where
  path : speechkit_batch_asr.Unseparated task.path
  audioUrl : speechkit_batch_asr.Unseparated (task.audioUrl.getD [])
  taskId : speechkit_batch_asr.Unseparated (task.taskId.getD [])

/-- What is read of a task without separators. -/
def SkTaskModel.readBack (task : SkTaskModel) : SkTaskModel :=
  ⟨trim isWhiteSpace task.path, some (trim isWhiteSpace (task.audioUrl.getD [])),
    some (trim isWhiteSpace (task.taskId.getD []))⟩

section tasks

variable {task other : SkTaskModel} {tasks : List SkTaskModel} {line : Text}

theorem exists_cleanField {field : Option Text} (h : Unseparated (field.getD []))
    (hread : some (trim isWhiteSpace (field.getD [])) = field) : ∃ value, field = some value ∧ CleanField value := by
  cases field with
  | none => cases hread
  | some value => exact ⟨value, rfl, h, Option.some.inj hread⟩

theorem SkTaskModel.clean_iff : task.Clean ↔ task.Unseparated ∧ task.readBack = task := by
  obtain ⟨path, audioUrl, taskId⟩ := task
  constructor
  · rintro ⟨hpath, ⟨audioUrl, rfl, haudioUrl⟩, ⟨taskId, rfl, htaskId⟩⟩
    refine ⟨⟨hpath.unseparated, haudioUrl.unseparated, htaskId.unseparated⟩, ?_⟩
    simp [SkTaskModel.readBack, hpath.trimmed, haudioUrl.trimmed, htaskId.trimmed]
  · rintro ⟨⟨hpath, haudioUrl, htaskId⟩, hread⟩
    rw [SkTaskModel.readBack, SkTaskModel.mk.injEq] at hread
    obtain ⟨hreadPath, hreadUrl, hreadId⟩ := hread
    exact ⟨⟨hpath, hreadPath⟩, exists_cleanField haudioUrl hreadUrl, exists_cleanField htaskId hreadId⟩

theorem splitAndFill_line (h : task.Unseparated) : splitAndFill task.line = .ok task.readBack := by
  have hblank (field : Text) : trim isWhiteSpace (' ' :: field) = trim isWhiteSpace field := trim_cons (by decide)
  have hsplit {field : Text} (hfield : Unseparated field) : field.splitOn ';' = [field] :=
    splitOn_of_not_mem fun hmem => (hfield _ hmem).1 rfl
  have hcons {field : Text} (hfield : Unseparated field) : (' ' :: field).splitOn ';' = [' ' :: field] :=
    hsplit (List.forall_mem_cons.mpr ⟨by decide, hfield⟩)
  rw [splitAndFill, SkTaskModel.line, splitOn_append, hsplit h.path, ← List.cons_append, splitOn_append,
    hcons h.audioUrl, hcons h.taskId]
  simp [hblank, SkTaskModel.readBack]

theorem SkTaskModel.Unseparated.lines_line (h : task.Unseparated) (newLine : NewLine) :
    lines (task.line ++ newLine.text) = [task.line] := by
  have hline : ∀ c ∈ task.line, isLineBreak c = false := by
    intro c hc
    simp only [SkTaskModel.line, List.mem_append, List.mem_cons] at hc
    obtain hc | rfl | rfl | hc | rfl | rfl | hc := hc
    · exact (h.path c hc).2
    · rfl
    · rfl
    · exact (h.audioUrl c hc).2
    · rfl
    · rfl
    · exact (h.taskId c hc).2
  cases newLine with
  | unix => exact lines_of_no_break hline [] (.inl rfl)
  | windows => exact lines_of_no_break hline ['\r'] (.inr rfl)

theorem NewLine.exists_text_eq (newLine : NewLine) : ∃ pre, newLine.text = pre ++ ['\n'] := by
  cases newLine with
  | unix => exact ⟨[], rfl⟩
  | windows => exact ⟨['\r'], rfl⟩

/-- Every task starts a line. -/
theorem lines_line_append (task : SkTaskModel) (newLine : NewLine) (rest : Text) :
    lines (task.line ++ newLine.text ++ rest) = lines (task.line ++ newLine.text) ++ lines rest := by
  obtain ⟨pre, hpre⟩ := newLine.exists_text_eq
  have h := lines_append (task.line ++ pre) rest
  simpa [hpre] using h

/-- The content of a file with these tasks. -/
def fileText (newLine : NewLine) (tasks : List SkTaskModel) : Text :=
  tasks.flatMap fun task => task.line ++ newLine.text

/-- Tasks without separators are read one by one. -/
theorem mapM_splitAndFill (newLine : NewLine) (h : ∀ task ∈ tasks, task.Unseparated) :
    (lines (fileText newLine tasks)).mapM splitAndFill = .ok (tasks.map SkTaskModel.readBack) := by
  induction tasks with
  | nil => rfl
  | cons task tasks ih =>
    obtain ⟨htask, htasks⟩ := List.forall_mem_cons.mp h
    rw [fileText, List.flatMap_cons, lines_line_append, htask.lines_line newLine]
    have hfirst : [task.line].mapM splitAndFill = .ok [task.readBack] :=
      mapM_eq_ok_iff.mpr (.cons (splitAndFill_line htask) .nil)
    exact mapM_append_ok hfirst (ih htasks)

/-- What is read of a line has no separators, and is trimmed. -/
theorem cleanField_of_read (hline : ∀ c ∈ line, isLineBreak c = false) (h : splitAndFill line = .ok task) :
    CleanField task.path ∧ (∀ audioUrl, task.audioUrl = some audioUrl → CleanField audioUrl) ∧
      ∀ taskId, task.taskId = some taskId → CleanField taskId := by
  have hclean : ∀ field ∈ (line.splitOn ';').map (trim isWhiteSpace), CleanField field := by
    intro field hfield
    obtain ⟨part, hpart, rfl⟩ := List.mem_map.mp hfield
    refine ⟨fun c hc => ?_, trim_trim isWhiteSpace part⟩
    obtain ⟨hne, hmem⟩ := of_mem_splitOn hpart (mem_of_mem_trim hc)
    exact ⟨hne, hline c hmem⟩
  unfold splitAndFill at h
  split at h
  · next path hvalues =>
    cases h
    rw [hvalues] at hclean
    exact ⟨hclean path (by simp), by simp, by simp⟩
  · next path audioUrl hvalues =>
    cases h
    rw [hvalues] at hclean
    simpa using hclean
  · next path audioUrl taskId hvalues =>
    cases h
    rw [hvalues] at hclean
    simpa using hclean
  · cases h

end tasks

section database

variable {db taskDb : TaskDb} {task : SkTaskModel} {tasks : List SkTaskModel} {path : Text}

theorem TaskDb.eq_of_tasks_eq (h : taskDb.tasks = db.tasks) : taskDb = db := by
  cases taskDb
  cases db
  cases h
  rfl

theorem TaskDb.find_eq_some_iff : db.find path = some task ↔ task ∈ db.tasks ∧ task.path = path := by
  constructor
  · intro h
    exact ⟨List.mem_of_find?_eq_some h, by simpa using List.find?_some h⟩
  · rintro ⟨hmem, rfl⟩
    have hsome : (db.tasks.find? (·.path = task.path)).isSome := List.find?_isSome.mpr ⟨task, hmem, by simp⟩
    obtain ⟨found, hfound⟩ := Option.isSome_iff_exists.mp hsome
    have hpath : found.path = task.path := by simpa using List.find?_some hfound
    rw [TaskDb.find, hfound, List.inj_on_of_nodup_map db.nodup (List.mem_of_find?_eq_some hfound) hmem hpath]

/-- Databases are the same maps when they have the same tasks. -/
theorem TaskDb.find_eq_iff : (∀ path, taskDb.find path = db.find path) ↔
    ∀ task, task ∈ taskDb.tasks ↔ task ∈ db.tasks := by
  constructor
  · intro h task
    have hfind := h task.path
    constructor
    · intro hmem
      exact (find_eq_some_iff.mp (hfind.symm.trans (find_eq_some_iff.mpr ⟨hmem, rfl⟩))).1
    · intro hmem
      exact (find_eq_some_iff.mp (hfind.trans (find_eq_some_iff.mpr ⟨hmem, rfl⟩))).1
  · intro h path
    ext task
    rw [find_eq_some_iff, find_eq_some_iff, h]

theorem TaskDb.foldlM_add : tasks.foldlM TaskDb.add db = .ok taskDb ↔ taskDb.tasks = db.tasks ++ tasks := by
  induction tasks generalizing db with
  | nil =>
    rw [List.append_nil]
    constructor
    · rintro ⟨⟩
      rfl
    · intro h
      rw [TaskDb.eq_of_tasks_eq h]
      rfl
  | cons task tasks ih =>
    rw [List.foldlM_cons, TaskDb.add]
    split
    · next hexist =>
      refine iff_of_false (by rintro ⟨⟩) fun h => ?_
      have hnodup := taskDb.nodup
      rw [h, List.map_append, List.map_cons, List.nodup_append] at hnodup
      exact hnodup.2.2 _ hexist _ List.mem_cons_self rfl
    · next hexist => exact ih.trans (by simp [TaskDb.insert])

end database

/-- The file holds the lines of the tasks, and there is none before the first. -/
structure SkTaskDb.Written (newLine : NewLine) (db : SkTaskDb) : Prop where
  file : db.file.getD [] = fileText newLine db.taskDb.tasks
  none : db.file = none → db.taskDb.tasks = []

/-- A task without the byte order mark in front of its line. -/
def SkTaskModel.unmark (task : SkTaskModel) : SkTaskModel :=
  match task.path with
  | '\uFEFF' :: path => { task with path }
  | _ => task

section reload

variable {newLine : NewLine} {db : SkTaskDb} {task : SkTaskModel} {tasks : List SkTaskModel}

theorem SkTaskModel.unmark_of_head (h : task.path.head? ≠ some '\uFEFF') : task.unmark = task := by
  unfold SkTaskModel.unmark
  split
  · next path hpath => simp [hpath] at h
  · rfl

theorem readAllLines_fileText (newLine : NewLine) (task : SkTaskModel) (tasks : List SkTaskModel) :
    readAllLines (fileText newLine (task :: tasks)) = lines (fileText newLine (task.unmark :: tasks)) := by
  obtain ⟨path, audioUrl, taskId⟩ := task
  unfold SkTaskModel.unmark
  split
  · next path hpath =>
    cases hpath
    rfl
  · next hpath =>
    unfold readAllLines
    split
    · next text htext =>
      cases path with
      | nil => cases htext
      | cons c path =>
        cases htext
        exact absurd rfl (hpath path)
    · rfl

theorem SkTaskDb.Written.loaded_iff (h : db.Written newLine) {taskDb : TaskDb}
    (htasks : db.taskDb.tasks = task :: tasks) :
    loadTasksDbFile db.file = .ok taskDb ↔
      (lines (fileText newLine (task.unmark :: tasks))).mapM splitAndFill = .ok taskDb.tasks := by
  have hfile := h.file
  cases hsome : db.file with
  | none => simp [h.none hsome] at htasks
  | some text =>
    rw [hsome, Option.getD_some, htasks] at hfile
    rw [loadTasksDbFile, hfile, readAllLines_fileText]
    cases (lines (fileText newLine (task.unmark :: tasks))).mapM splitAndFill with
    | error e => exact iff_of_false (by rintro ⟨⟩) (by rintro ⟨⟩)
    | ok loaded =>
      apply TaskDb.foldlM_add.trans
      rw [Except.ok.injEq, eq_comm]
      rfl

theorem SkTaskModel.Unseparated.of_read (hpath : CleanField task.path)
    (haudioUrl : ∀ audioUrl, task.audioUrl = some audioUrl → CleanField audioUrl)
    (htaskId : ∀ taskId, task.taskId = some taskId → CleanField taskId) : task.Unseparated := by
  have hfield {field : Option Text} (h : ∀ value, field = some value → CleanField value) :
      speechkit_batch_asr.Unseparated (field.getD []) := by
    cases field with
    | none => exact fun c hc => by cases hc
    | some value => exact (h value rfl).unseparated
  exact ⟨hpath.unseparated, hfield haudioUrl, hfield htaskId⟩

theorem SkTaskModel.Unseparated.unmark (h : task.Unseparated) : task.unmark.Unseparated := by
  unfold SkTaskModel.unmark
  split
  · next path hpath =>
    refine ⟨fun c hc => h.path c ?_, h.audioUrl, h.taskId⟩
    rw [hpath]
    exact List.mem_cons_of_mem _ hc
  · exact h

/-- A task that is read back without the mark had none. -/
theorem SkTaskModel.head_of_readBack_unmark (h : task.unmark.readBack = task) : task.path.head? ≠ some '\uFEFF' := by
  intro hhead
  obtain ⟨path, hpath⟩ : ∃ path, task.path = '\uFEFF' :: path := by
    cases hcons : task.path with
    | nil => simp [hcons] at hhead
    | cons c path =>
      rw [hcons] at hhead
      cases hhead
      exact ⟨path, rfl⟩
  have hread := congrArg SkTaskModel.path h
  simp only [SkTaskModel.readBack, SkTaskModel.unmark, hpath] at hread
  have hle := length_trim_le isWhiteSpace path
  rw [hread, List.length_cons] at hle
  omega

/-- Nothing is stored, and nothing is read. -/
theorem SkTaskDb.Written.reloads_of_nil (h : db.Written newLine) (htasks : db.taskDb.tasks = []) : Reloads db := by
  have hload : loadTasksDbFile db.file = .ok .empty := by
    have hfile := h.file
    rw [htasks] at hfile
    cases hsome : db.file with
    | none => rfl
    | some text =>
      rw [hsome, Option.getD_some] at hfile
      rw [hfile]
      rfl
  exact ⟨.empty, hload, TaskDb.find_eq_iff.mpr fun task => by rw [htasks]; rfl⟩

/-- A task that is read from a file has no separators. -/
theorem SkTaskModel.Unseparated.of_mem_read {text : Text} (hload : (lines text).mapM splitAndFill = .ok tasks)
    (ht : task ∈ tasks) : task.Unseparated := by
  obtain ⟨line, hline, hread⟩ := exists_of_mem_right (mapM_eq_ok_iff.mp hload) ht
  obtain ⟨hpath, haudioUrl, htaskId⟩ := cleanField_of_read (fun c hc => isLineBreak_of_mem_lines hline hc) hread
  exact .of_read hpath haudioUrl htaskId

/-- When the tasks that are read are the stored ones, each is read as itself. -/
theorem SkTaskModel.readBack_eq_of_mem_iff (hnodup : ((task :: tasks).map SkTaskModel.path).Nodup)
    (hmem : ∀ t, t ∈ (task.unmark :: tasks).map SkTaskModel.readBack ↔ t ∈ task :: tasks) :
    task.unmark.readBack = task ∧ ∀ t ∈ tasks, t.readBack = t := by
  -- a later task is the one that is read with its path
  have hlater : ∀ t ∈ tasks, t.readBack = t := by
    intro t ht
    obtain ⟨u, _, rfl⟩ := List.mem_map.mp ((hmem t).mpr (List.mem_cons_of_mem _ ht))
    have hpath : u.readBack.readBack.path = u.readBack.path := trim_trim isWhiteSpace u.path
    have hstored := (hmem u.readBack.readBack).mp (List.mem_map_of_mem (List.mem_cons_of_mem _ ht))
    exact List.inj_on_of_nodup_map hnodup hstored (List.mem_cons_of_mem _ ht) hpath
  refine ⟨?_, hlater⟩
  obtain heq | hloaded := List.mem_cons.mp ((hmem task).mpr List.mem_cons_self)
  · exact heq.symm
  · obtain ⟨t, ht, heq⟩ := List.mem_map.mp hloaded
    rw [hlater t ht] at heq
    rw [List.map_cons, List.nodup_cons] at hnodup
    exact absurd (List.mem_map_of_mem (heq ▸ ht)) hnodup.1

/-- What is stored is read back when its fields are clean, and the file does not
start with a byte order mark. -/
theorem SkTaskDb.Written.reloads_iff (h : db.Written newLine) : Reloads db ↔
    (∀ task ∈ db.taskDb.tasks, task.Clean) ∧
      ∀ task, db.taskDb.tasks.head? = some task → task.path.head? ≠ some '\uFEFF' := by
  cases htasks : db.taskDb.tasks with
  | nil => exact iff_of_true (h.reloads_of_nil htasks) (by simp)
  | cons task tasks =>
    constructor
    · rintro ⟨taskDb, hload, hfind⟩
      have hmem := TaskDb.find_eq_iff.mp hfind
      rw [h.loaded_iff htasks] at hload
      have hunseparated : ∀ t ∈ task :: tasks, t.Unseparated := fun t ht =>
        .of_mem_read hload ((hmem t).mpr (htasks ▸ ht))
      obtain ⟨htask, hrest⟩ := List.forall_mem_cons.mp hunseparated
      have hall : ∀ t ∈ task.unmark :: tasks, t.Unseparated := List.forall_mem_cons.mpr ⟨htask.unmark, hrest⟩
      have hread := Except.ok.inj ((mapM_splitAndFill newLine hall).symm.trans hload)
      rw [← hread, htasks] at hmem
      obtain ⟨hhead, hlater⟩ := SkTaskModel.readBack_eq_of_mem_iff (htasks ▸ db.taskDb.nodup) hmem
      have hmark := SkTaskModel.head_of_readBack_unmark hhead
      rw [SkTaskModel.unmark_of_head hmark] at hhead
      refine ⟨List.forall_mem_cons.mpr ⟨SkTaskModel.clean_iff.mpr ⟨htask, hhead⟩, fun t ht => ?_⟩, fun t ht => ?_⟩
      · exact SkTaskModel.clean_iff.mpr ⟨hrest t ht, hlater t ht⟩
      · cases ht
        exact hmark
    · rintro ⟨hclean, hhead⟩
      have hunmark : task.unmark = task := SkTaskModel.unmark_of_head (hhead task rfl)
      have hread := mapM_splitAndFill newLine fun task htask => (SkTaskModel.clean_iff.mp (hclean task htask)).1
      refine ⟨db.taskDb, ?_, fun _ => rfl⟩
      rw [h.loaded_iff htasks, hunmark, hread, htasks]
      apply congrArg Except.ok
      conv_rhs => rw [← List.map_id (task :: tasks)]
      exact List.map_congr_left fun t ht => (SkTaskModel.clean_iff.mp (hclean t ht)).2

end reload

section store

variable {newLine : NewLine} {db : SkTaskDb} {task : SkTaskModel}

def SkTaskDb.init : SkTaskDb :=
  ⟨none, .empty⟩

theorem storeTask_of_exist (h : db.taskDb.exist task) : storeTask newLine db task = db :=
  dif_pos h

theorem storeTask_of_not_exist (h : ¬ db.taskDb.exist task) : storeTask newLine db task =
    ⟨some (db.file.getD [] ++ (task.line ++ newLine.text)), db.taskDb.insert task h⟩ :=
  dif_neg h

theorem SkTaskDb.Written.storeTask (h : db.Written newLine) (task : SkTaskModel) :
    (storeTask newLine db task).Written newLine := by
  by_cases hexist : db.taskDb.exist task
  · rwa [storeTask_of_exist hexist]
  · rw [storeTask_of_not_exist hexist]
    refine ⟨?_, by simp⟩
    rw [Option.getD_some, h.file]
    simp [fileText, TaskDb.insert]

theorem written_foldl (newLine : NewLine) (tasks : List SkTaskModel) :
    (tasks.foldl (storeTask newLine) .init).Written newLine := by
  induction tasks using List.reverseRecOn with
  | nil => exact ⟨rfl, fun _ => rfl⟩
  | append_singleton tasks task ih =>
    rw [List.foldl_concat]
    exact ih.storeTask task

theorem stored_append_singleton {tasks : List SkTaskModel} {other : SkTaskModel} : Stored (tasks ++ [other]) task ↔
    Stored tasks task ∨ task = other ∧ ∀ t ∈ tasks, t.path ≠ other.path := by
  constructor
  · rintro ⟨before, after, heq, hbefore⟩
    obtain rfl | ⟨after, last, rfl⟩ := List.eq_nil_or_concat after
    · obtain ⟨rfl, hlast⟩ := List.append_inj' heq rfl
      cases hlast
      exact .inr ⟨rfl, hbefore⟩
    · rw [List.concat_eq_append, ← List.cons_append, ← List.append_assoc] at heq
      exact .inl ⟨before, after, (List.append_inj' heq rfl).1, hbefore⟩
  · rintro (⟨before, after, rfl, hbefore⟩ | ⟨rfl, hnew⟩)
    · exact ⟨before, after ++ [other], by simp, hbefore⟩
    · exact ⟨tasks, [], rfl, hnew⟩

theorem exist_foldl (newLine : NewLine) (tasks : List SkTaskModel) (task : SkTaskModel) :
    (tasks.foldl (storeTask newLine) .init).taskDb.exist task ↔ task.path ∈ tasks.map SkTaskModel.path := by
  induction tasks using List.reverseRecOn with
  | nil => rfl
  | append_singleton tasks last ih =>
    rw [List.foldl_concat, List.map_append, List.mem_append, ← ih]
    by_cases hexist : (tasks.foldl (storeTask newLine) .init).taskDb.exist last
    · rw [storeTask_of_exist hexist]
      refine (or_iff_left_of_imp fun hlast => ?_).symm
      rw [List.map_singleton, List.mem_singleton] at hlast
      rwa [TaskDb.exist, hlast]
    · rw [storeTask_of_not_exist hexist]
      simp [TaskDb.exist, TaskDb.insert]

/-- The tasks of the database are the stored ones. -/
theorem mem_tasks_foldl (newLine : NewLine) (tasks : List SkTaskModel) (task : SkTaskModel) :
    task ∈ (tasks.foldl (storeTask newLine) .init).taskDb.tasks ↔ Stored tasks task := by
  induction tasks using List.reverseRecOn with
  | nil => simp [SkTaskDb.init, TaskDb.empty, Stored]
  | append_singleton tasks last ih =>
    have hpath := exist_foldl newLine tasks last
    rw [List.foldl_concat, stored_append_singleton, ← ih]
    by_cases hexist : (tasks.foldl (storeTask newLine) .init).taskDb.exist last
    · rw [storeTask_of_exist hexist]
      refine (or_iff_left ?_).symm
      rintro ⟨_, hnew⟩
      obtain ⟨t, ht, heq⟩ := List.mem_map.mp (hpath.mp hexist)
      exact hnew t ht heq
    · rw [storeTask_of_not_exist hexist]
      have hnew : ∀ t ∈ tasks, t.path ≠ last.path := fun t ht heq => hexist (hpath.mpr (heq ▸ List.mem_map_of_mem ht))
      apply List.mem_append.trans
      rw [List.mem_singleton, and_iff_left hnew]

theorem head?_tasks_foldl (newLine : NewLine) (tasks : List SkTaskModel) :
    (tasks.foldl (storeTask newLine) .init).taskDb.tasks.head? = tasks.head? := by
  induction tasks using List.reverseRecOn with
  | nil => rfl
  | append_singleton tasks last ih =>
    rw [List.foldl_concat]
    by_cases hexist : (tasks.foldl (storeTask newLine) .init).taskDb.exist last
    · obtain ⟨t, ht, _⟩ := List.mem_map.mp ((exist_foldl newLine tasks last).mp hexist)
      rw [storeTask_of_exist hexist, ih, List.head?_append_of_ne_nil _ (List.ne_nil_of_mem ht)]
    · rw [storeTask_of_not_exist hexist]
      simp [TaskDb.insert, List.head?_append, ih]

end store

/-- After every sequence of `storeTask` the database is read back as it was exactly
when the fields of the stored tasks are clean, and the file does not start with
a byte order mark. -/
theorem tasks_reload_iff (newLine : NewLine) (tasks : List SkTaskModel) :
    Reloads (tasks.foldl (storeTask newLine) .init) ↔
      (∀ task, Stored tasks task → task.Clean) ∧
        ∀ task, tasks.head? = some task → task.path.head? ≠ some '\uFEFF' := by
  rw [(written_foldl newLine tasks).reloads_iff, head?_tasks_foldl]
  simp only [mem_tasks_foldl]

/-- An object key with a semicolon makes the file unreadable, one with a blank at its
end is read without it, and one with a line break is read as two tasks. -/
theorem tasks_not_reloaded :
    let db (path : String) : SkTaskDb :=
      [⟨path.toList, some "https://storage/a".toList, some "op".toList⟩].foldl (storeTask .unix) .init
    (∀ path ∈ ["a;b.wav", "a.wav ", "a\nb.wav"], ¬ Reloads (db path)) ∧
      loadTasksDbFile (db "a;b.wav").file = .error .indexOutOfRange := by
  intro db
  refine ⟨fun path hpath hreloads => ?_, rfl⟩
  have hclean := ((written_foldl .unix _).reloads_iff.mp hreloads).1 _ List.mem_cons_self
  simp only [List.mem_cons, List.not_mem_nil, or_false] at hpath
  obtain rfl | rfl | rfl := hpath
  · exact (hclean.path.unseparated ';' (by decide)).1 rfl
  · exact absurd hclean.path.trimmed (by decide)
  · exact absurd (hclean.path.unseparated '\n' (by decide)).2 (by decide)

end solution_library.speechkit_batch_asr
