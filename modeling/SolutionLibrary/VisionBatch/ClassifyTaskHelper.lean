import SolutionLibrary.Library.Chunks
import SolutionLibrary.Library.Paths

open solution_library.chunks
open solution_library.paths
open solution_library.text

namespace solution_library.vision_batch

/-- The name of a file or of a directory. -/
structure Name where
  text : Text
  ne_nil : text ≠ []
  separator : '/' ∉ text

/-- A directory with its files and its subdirectories, in the order in which they are listed. -/
inductive Directory where
  | mk (files : List Name) (directories : List (Name × Directory))

structure ClassifyTaskModel where
  ImagePath : Text
  deriving DecidableEq

/-- `Path.GetFileName`. -/
def GetFileName (path : Text) : Text :=
  path.rtakeWhile (· ≠ '/')

/-- `Path.GetExtension`. -/
def GetExtension (path : Text) : Text :=
  let extension := path.drop (dropExtension path).length
  if extension = ['.'] then [] else extension

namespace ClassifyTaskModel

def ImageType (task : ClassifyTaskModel) : Text :=
  GetExtension task.ImagePath

/-- `none` is the exception for an image that is neither. -/
def MimeType (task : ClassifyTaskModel) : Option String :=
  if task.ImageType.map Char.toLower = ".jpeg".toList ∨ task.ImageType.map Char.toLower = ".jpg".toList then
    some "image/jpeg"
  else if task.ImageType.map Char.toLower = ".png".toList then some "image/png"
  else none

end ClassifyTaskModel

/-- The filter of `MakeDirectoryTasks`, which looks at the last letters only. -/
def isImage (file : Text) : Bool :=
  ["jpg".toList, "jpeg".toList, "png".toList].any (·.isSuffixOf (file.map Char.toLower))

mutual

def MakeDirectoryTasks (dir : Text) : Directory → List ClassifyTaskModel
  | .mk files directories =>
    ((files.map fun name => combine dir name.text).filter isImage).map ClassifyTaskModel.mk ++
      makeSubdirectoryTasks dir directories

def makeSubdirectoryTasks (dir : Text) : List (Name × Directory) → List ClassifyTaskModel
  | [] => []
  | (name, directory) :: directories =>
    MakeDirectoryTasks (combine dir name.text) directory ++ makeSubdirectoryTasks dir directories

end

/-- The loop of `Batch`, which yields a batch as soon as it is full. -/
def batchLoop {α : Type*} (batchSize : ℕ) (nextbatch : List α) : List α → List (List α)
  | [] => if 0 < nextbatch.length then [nextbatch] else []
  | item :: collection =>
    if (nextbatch ++ [item]).length = batchSize then (nextbatch ++ [item]) :: batchLoop batchSize [] collection
    else batchLoop batchSize (nextbatch ++ [item]) collection

def Batch {α : Type*} (collection : List α) (batchSize : ℕ) : List (List α) :=
  batchLoop batchSize [] collection

mutual

/-- The names of the image files below a directory. -/
def Directory.imageNames : Directory → List Text
  | .mk files directories => (files.map Name.text).filter isImage ++ subdirectoryImageNames directories

def subdirectoryImageNames : List (Name × Directory) → List Text
  | [] => []
  | (_, directory) :: directories => directory.imageNames ++ subdirectoryImageNames directories

end

section paths

variable {front name : Text}

theorem GetFileName_append (hfront : front = [] ∨ ∃ directory, front = directory ++ ['/']) (hname : '/' ∉ name) :
    GetFileName (front ++ name) = name := by
  have hskip : ∀ c ∈ name.reverse, decide (c ≠ '/') = true := by
    intro c hc
    apply decide_eq_true
    rintro rfl
    exact hname (List.mem_reverse.mp hc)
  rw [GetFileName, List.rtakeWhile, List.reverse_append, List.takeWhile_append_of_pos hskip]
  obtain rfl | ⟨directory, rfl⟩ := hfront
  · simp
  · simp

theorem suffix_append_iff {suffix : Text} (hfront : front = [] ∨ ∃ directory, front = directory ++ ['/'])
    (hsuffix : '/' ∉ suffix) : suffix <:+ front ++ name ↔ suffix <:+ name := by
  refine ⟨fun h => ?_, fun h => h.trans (List.suffix_append front name)⟩
  obtain rfl | ⟨directory, rfl⟩ := hfront
  · exact h
  · rw [List.append_assoc, List.singleton_append] at h
    obtain h | h := List.suffix_or_suffix_of_suffix h (List.suffix_append directory ('/' :: name))
    · obtain rfl | h := List.suffix_cons_iff.mp h
      · exact absurd List.mem_cons_self hsuffix
      · exact h
    · exact absurd (h.mem List.mem_cons_self) hsuffix

theorem isImage_append (hfront : front = [] ∨ ∃ directory, front = directory ++ ['/']) :
    isImage (front ++ name) = isImage name := by
  have hlower : front.map Char.toLower = [] ∨ ∃ directory, front.map Char.toLower = directory ++ ['/'] := by
    obtain rfl | ⟨directory, rfl⟩ := hfront
    · exact .inl rfl
    · exact .inr ⟨directory.map Char.toLower, List.map_append⟩
  have hsuffix (suffix : Text) (h : '/' ∉ suffix) : suffix.isSuffixOf ((front ++ name).map Char.toLower) =
      suffix.isSuffixOf (name.map Char.toLower) := by
    rw [Bool.eq_iff_iff, List.isSuffixOf_iff_suffix, List.isSuffixOf_iff_suffix, List.map_append,
      suffix_append_iff hlower h]
  simp only [isImage, List.any_cons, List.any_nil]
  rw [hsuffix _ (by decide), hsuffix _ (by decide), hsuffix _ (by decide)]

theorem exists_combine_name (dir : Text) : ∃ front, (front = [] ∨ ∃ directory, front = directory ++ ['/']) ∧
    ∀ name : Name, combine dir name.text = front ++ name.text := by
  obtain ⟨front, hfront, hcombine⟩ := exists_combine_eq dir
  exact ⟨front, hfront, fun name => hcombine name.text name.ne_nil (isPathRooted_of_not_mem name.separator)⟩

theorem map_GetFileName_files (dir : Text) (files : List Name) :
    (((files.map fun name => combine dir name.text).filter isImage).map ClassifyTaskModel.mk).map
      (GetFileName ·.ImagePath) = (files.map Name.text).filter isImage := by
  obtain ⟨front, hfront, hcombine⟩ := exists_combine_name dir
  have himage : (isImage ∘ fun name : Name => combine dir name.text) = isImage ∘ Name.text := by
    funext name
    rw [Function.comp_apply, Function.comp_apply, hcombine, isImage_append hfront]
  rw [List.filter_map, List.filter_map, himage, List.map_map, List.map_map]
  apply List.map_congr_left
  intro name _
  exact (congrArg GetFileName (hcombine name)).trans (GetFileName_append hfront name.separator)

mutual

/-- The tasks are those of the image files, at any depth. -/
theorem map_GetFileName_MakeDirectoryTasks (dir : Text) (tree : Directory) :
    (MakeDirectoryTasks dir tree).map (GetFileName ·.ImagePath) = tree.imageNames := by
  cases tree with
  | mk files directories =>
    rw [MakeDirectoryTasks, Directory.imageNames, List.map_append, map_GetFileName_files,
      map_GetFileName_makeSubdirectoryTasks]

theorem map_GetFileName_makeSubdirectoryTasks (dir : Text) (directories : List (Name × Directory)) :
    (makeSubdirectoryTasks dir directories).map (GetFileName ·.ImagePath) = subdirectoryImageNames directories := by
  cases directories with
  | nil => rfl
  | cons entry directories =>
    obtain ⟨name, directory⟩ := entry
    rw [makeSubdirectoryTasks, subdirectoryImageNames, List.map_append, map_GetFileName_MakeDirectoryTasks,
      map_GetFileName_makeSubdirectoryTasks]

end

end paths

section Batch

variable {α : Type*} {batchSize : ℕ} {nextbatch batch collection : List α}

theorem total_one (group : List α) : total (fun _ => 1) group = group.length := by
  induction group with
  | nil => rfl
  | cons item group ih => rw [total, List.map_cons, List.sum_cons, ← total, ih, List.length_cons, Nat.add_comm]

/-- A batch is yielded before the next item comes, and yet the batches are the filled groups. -/
theorem batchLoop_eq_fill (h : nextbatch.length < batchSize) (collection : List α) :
    batchLoop batchSize nextbatch collection = fill batchSize (fun _ => 1) nextbatch collection := by
  induction collection generalizing nextbatch with
  | nil =>
    rw [batchLoop, fill]
    by_cases hempty : nextbatch = []
    · rw [if_pos hempty, hempty]
      rfl
    · rw [if_neg hempty, if_pos (List.length_pos_iff.mpr hempty)]
  | cons item collection ih =>
    have hroom : ¬ batchSize < total (fun _ => 1) nextbatch + 1 := by
      rw [total_one]
      omega
    have hlength : (nextbatch ++ [item]).length = nextbatch.length + 1 := List.length_append
    rw [batchLoop, fill, if_neg hroom]
    by_cases hfull : (nextbatch ++ [item]).length = batchSize
    · have hpos : 0 < batchSize := Nat.zero_lt_of_lt h
      have htotal : total (fun _ => 1) (nextbatch ++ [item]) = batchSize := (total_one _).trans hfull
      have hone : ∀ item ∈ collection, 0 < 1 ∧ 1 ≤ batchSize := fun _ _ => ⟨Nat.one_pos, hpos⟩
      have hrest : batchLoop batchSize [] collection = fill batchSize (fun _ => 1) [] collection := ih hpos
      rw [if_pos hfull, hrest]
      exact (fill_of_full htotal (by simp) hone).symm
    · rw [if_neg hfull, ih (by omega)]

theorem Batch_eq_fill (h : 0 < batchSize) (collection : List α) :
    Batch collection batchSize = fill batchSize (fun _ => 1) [] collection :=
  batchLoop_eq_fill h collection

/-- Batching drops, repeats and reorders nothing. -/
theorem flatten_Batch (h : 0 < batchSize) (collection : List α) :
    (Batch collection batchSize).flatten = collection := by
  rw [Batch_eq_fill h, flatten_fill, List.nil_append]

/-- No batch is larger than the service allows. -/
theorem length_le_of_mem_Batch (h : 0 < batchSize) (hbatch : batch ∈ Batch collection batchSize) :
    batch.length ≤ batchSize := by
  rw [Batch_eq_fill h] at hbatch
  rw [← total_one]
  exact (begins_of_mem_fill (fun _ _ => h) .first (Nat.zero_le _) hbatch).1

end Batch

end solution_library.vision_batch
