import Mathlib.Data.List.Infix
import SolutionLibrary.Library.Store

open solution_library.store

namespace solution_library.file_tree

/-- Files and directories, each under the names that lead to it from the root. A
path leads to a file or to a directory, and to either through directories. -/
structure FileTree (Name Content : Type*) [LinearOrder Name] where
  files : Store (List Name) Content
  directories : List (List Name)
  disjoint : ∀ path ∈ directories, files.get path = none
  parents : ∀ path, (files.get path).isSome → path.dropLast ∈ directories
  closed : ∀ path ∈ directories, ∀ parent, parent <+: path → parent ∈ directories

namespace FileTree

variable {Name Content : Type*} [LinearOrder Name] {tree after : FileTree Name Content} {path other : List Name}
  {content : Content}

/-- The tree of a root without entries. -/
def empty : FileTree Name Content where
  files := .empty
  directories := [[]]
  disjoint _ _ := rfl
  parents _ h := by cases h
  closed path hpath parent hparent := by
    rw [List.mem_singleton.mp hpath] at hparent
    exact List.mem_singleton.mpr (List.prefix_nil.mp hparent)

/-- The directory and those on the way to it are created, unless there is a file in
the place of one. -/
def createDirectory (tree : FileTree Name Content) (path : List Name) : Option (FileTree Name Content) :=
  if h : ∀ parent ∈ path.inits, tree.files.get parent = none then
    some
      { tree with
        directories := tree.directories ++ path.inits
        disjoint := fun other hother => (List.mem_append.mp hother).elim (tree.disjoint other) (h other)
        parents := fun other hother => List.mem_append_left _ (tree.parents other hother)
        closed := fun other hother parent hparent => by
          obtain hother | hother := List.mem_append.mp hother
          · exact List.mem_append_left _ (tree.closed other hother parent hparent)
          · refine List.mem_append_right _ ((List.mem_inits _ _).mpr ?_)
            exact hparent.trans ((List.mem_inits _ _).mp hother) }
  else none

/-- A file is written in an existing directory, unless there is a directory in its
place. -/
def writeFile (tree : FileTree Name Content) (path : List Name) (content : Content) :
    Option (FileTree Name Content) :=
  if h : path.dropLast ∈ tree.directories ∧ path ∉ tree.directories then
    some
      { tree with
        files := tree.files.put path content
        disjoint := fun other hother => by
          rw [Store.get_put_of_ne _ _ (ne_of_mem_of_not_mem hother h.2)]
          exact tree.disjoint other hother
        parents := fun other hother => by
          by_cases heq : other = path
          · exact heq ▸ h.1
          · rw [Store.get_put_of_ne _ _ heq] at hother
            exact tree.parents other hother }
  else none

theorem isSome_createDirectory_iff :
    (tree.createDirectory path).isSome ↔ ∀ parent, parent <+: path → tree.files.get parent = none := by
  rw [createDirectory]
  split
  · next h => simpa using fun parent hparent => h parent ((List.mem_inits _ _).mpr hparent)
  · next h => simpa using h

theorem files_createDirectory (h : tree.createDirectory path = some after) : after.files = tree.files := by
  rw [createDirectory] at h
  split at h
  · cases h
    rfl
  · cases h

theorem mem_directories_createDirectory (h : tree.createDirectory path = some after) :
    other ∈ after.directories ↔ other ∈ tree.directories ∨ other <+: path := by
  rw [createDirectory] at h
  split at h
  · cases h
    rw [List.mem_append, List.mem_inits]
  · cases h

theorem isSome_writeFile_iff : (tree.writeFile path content).isSome ↔
    path.dropLast ∈ tree.directories ∧ path ∉ tree.directories := by
  rw [writeFile]
  split
  · next h => simpa using h
  · next h => simpa using h

theorem files_writeFile (h : tree.writeFile path content = some after) :
    after.files = tree.files.put path content := by
  rw [writeFile] at h
  split at h
  · cases h
    rfl
  · cases h

theorem directories_writeFile (h : tree.writeFile path content = some after) :
    after.directories = tree.directories := by
  rw [writeFile] at h
  split at h
  · cases h
    rfl
  · cases h

/-- No file is on the way to another one, or in the place of a directory on the
way. -/
theorem not_prefix (h : (tree.files.get path).isSome) (hother : (tree.files.get other).isSome) :
    ¬ path <+: other.dropLast := by
  intro hprefix
  have hdirectory := tree.closed _ (tree.parents other hother) path hprefix
  rw [tree.disjoint path hdirectory] at h
  cases h

end FileTree

end solution_library.file_tree
