import SolutionLibrary.Library.Text

open solution_library.text

namespace solution_library.paths

/-- `Path.IsPathRooted`. -/
def isPathRooted (path : Text) : Bool :=
  path.head? = some '/'

/-- `Path.Combine` of two paths. -/
def combine (first second : Text) : Text :=
  if first = [] then second
  else if second = [] then first
  else if isPathRooted second then second
  else if first.getLast? = some '/' then first ++ second
  else first ++ '/' :: second

/-- A path up to the last dot of its file name. -/
def dropExtension (path : Text) : Text :=
  match path.reverse.dropWhile (fun c => c ≠ '.' ∧ c ≠ '/') with
  | '.' :: rest => rest.reverse
  | _ => path

/-- `Path.ChangeExtension`. -/
def changeExtension (path extension : Text) : Text :=
  if path = [] then [] else dropExtension path ++ extension

/-- `Path.GetDirectoryName`, which keeps the root. -/
def getDirectoryName (path : Text) : Text :=
  match path.reverse.dropWhile (· ≠ '/') with
  | [] => []
  | ['/'] => ['/']
  | _ :: rest => rest.reverse

/-- What a segment of a path leads to. -/
def descend (directory : List Text) (segment : Text) : List Text :=
  if segment = [] ∨ segment = ['.'] then directory
  else if segment = ['.', '.'] then directory.dropLast
  else directory ++ [segment]

/-- `Path.GetFullPath`, as the names that lead to the file. -/
def fullPath (currentDirectory : List Text) (path : Text) : List Text :=
  (path.splitOn '/').foldl descend (if isPathRooted path then [] else currentDirectory)

section paths

variable {first second path key extension segment : Text} {directory : List Text}

theorem combine_ne_nil (first : Text) (h : second ≠ []) : combine first second ≠ [] := by
  rw [combine, if_neg h]
  split
  · exact h
  · split
    · exact h
    · split
      · simp [h]
      · simp

theorem isPathRooted_of_not_mem (h : '/' ∉ path) : isPathRooted path = false := by
  cases path with
  | nil => rfl
  | cons c rest =>
    have hc : c ≠ '/' := fun heq => h (heq ▸ List.mem_cons_self)
    simp [isPathRooted, hc]

theorem descend_of_length (h : 2 < segment.length) : descend directory segment = directory ++ [segment] := by
  have hne (other : Text) (hother : other.length ≤ 2) : segment ≠ other := by
    rintro rfl
    omega
  rw [descend, if_neg (not_or.mpr ⟨hne [] (by decide), hne ['.'] (by decide)⟩), if_neg (hne ['.', '.'] (by decide))]

theorem separator_mem_combine (hfirst : first ≠ []) (hsecond : second ≠ []) : '/' ∈ combine first second := by
  rw [combine, if_neg hfirst, if_neg hsecond]
  split_ifs with hrooted hlast
  · exact List.mem_of_head? (of_decide_eq_true hrooted)
  · exact List.mem_append_left _ (List.mem_of_getLast? hlast)
  · simp

/-- A path with a separator ends in a name without one. -/
theorem exists_last_name (h : '/' ∈ path) : ∃ directory name, path = directory ++ '/' :: name ∧ '/' ∉ name := by
  obtain ⟨before, after, hreverse, hnot⟩ := List.eq_append_cons_of_mem (List.mem_reverse.mpr h)
  refine ⟨after.reverse, before.reverse, ?_, by simpa using hnot⟩
  rw [← List.reverse_reverse path, hreverse]
  simp

theorem getDirectoryName_append (directory : Text) {name : Text} (h : '/' ∉ name) :
    getDirectoryName (directory ++ '/' :: name) = if directory = [] then ['/'] else directory := by
  have hskip : (directory ++ '/' :: name).reverse.dropWhile (· ≠ '/') = '/' :: directory.reverse := by
    rw [List.reverse_append, List.reverse_cons, List.append_assoc, List.dropWhile_append_of_pos fun c hc => ?_]
    · exact List.dropWhile_cons_of_neg (by simp)
    · have hne : c ≠ '/' := fun heq => h (heq ▸ List.mem_reverse.mp hc)
      simpa using hne
  rw [getDirectoryName, hskip]
  cases directory using List.reverseRecOn with
  | nil => rfl
  | append_singleton directory c =>
    rw [List.reverse_concat, if_neg (by simp)]
    simp

theorem dropExtension_cons_name (directory : Text) {name : Text} (h : '/' ∉ name) :
    ∃ kept, dropExtension (directory ++ '/' :: name) = directory ++ '/' :: kept ∧ '/' ∉ kept := by
  rw [dropExtension, List.reverse_append, List.reverse_cons, List.append_assoc, List.dropWhile_append]
  cases hrest : name.reverse.dropWhile (fun c => c ≠ '.' ∧ c ≠ '/') with
  | nil => exact ⟨name, by simp, h⟩
  | cons c rest =>
    have hmem : c :: rest <:+ name.reverse := hrest ▸ List.dropWhile_suffix _
    have hstop := List.head?_dropWhile_not (fun c => decide (c ≠ '.' ∧ c ≠ '/')) name.reverse
    rw [hrest] at hstop
    have hdot : c = '.' := by
      have hsep : c ≠ '/' := fun heq => h (List.mem_reverse.mp (heq ▸ hmem.subset List.mem_cons_self))
      simpa [hsep] using hstop
    subst hdot
    refine ⟨rest.reverse, by simp, fun hsep => h ?_⟩
    exact List.mem_reverse.mp (hmem.subset (List.mem_cons_of_mem _ (List.mem_reverse.mp hsep)))

/-- With another extension a file stays in its directory. -/
theorem exists_fullPath_changeExtension (currentDirectory : List Text) (h : '/' ∈ path) : ∃ name, ∀ extension,
    '/' ∉ extension → 2 < extension.length → fullPath currentDirectory (changeExtension path extension) =
      fullPath currentDirectory (getDirectoryName path) ++ [name ++ extension] := by
  obtain ⟨directory, last, rfl, hlast⟩ := exists_last_name h
  obtain ⟨kept, hkept, hsep⟩ := dropExtension_cons_name directory hlast
  refine ⟨kept, fun extension hextension hlength => ?_⟩
  have hname : '/' ∉ kept ++ extension := by simp [hsep, hextension]
  have hfull : fullPath currentDirectory (directory ++ '/' :: (kept ++ extension)) =
      (directory.splitOn '/').foldl descend (if isPathRooted (directory ++ ['/']) then [] else currentDirectory) ++
        [kept ++ extension] := by
    have hrooted : isPathRooted (directory ++ '/' :: (kept ++ extension)) = isPathRooted (directory ++ ['/']) := by
      cases directory <;> rfl
    rw [fullPath, hrooted, splitOn_append, splitOn_of_not_mem hname, List.foldl_append]
    exact descend_of_length (by rw [List.length_append]; omega)
  rw [changeExtension, if_neg (by simp), hkept, List.append_assoc, List.cons_append, hfull,
    getDirectoryName_append directory hlast]
  cases directory with
  | nil => rfl
  | cons c directory => rfl

theorem dropExtension_append (path : Text) (hdot : '.' ∉ extension) (hsep : '/' ∉ extension) :
    dropExtension (path ++ '.' :: extension) = path := by
  have hskip : (extension.reverse ++ '.' :: path.reverse).dropWhile (fun c => c ≠ '.' ∧ c ≠ '/') =
      '.' :: path.reverse := by
    rw [List.dropWhile_append_of_pos fun c hc => ?_]
    · exact List.dropWhile_cons_of_neg (by simp)
    · have hmem : c ∈ extension := List.mem_reverse.mp hc
      have hne (other : Char) (h : other ∉ extension) : c ≠ other := fun heq => h (heq ▸ hmem)
      simp [hne '.' hdot, hne '/' hsep]
  rw [dropExtension, List.reverse_append, List.reverse_cons, List.append_assoc, List.singleton_append, hskip]
  exact List.reverse_reverse path

/-- What follows the last dot of a file name. -/
structure IsExtension (extension : Text) : Prop where
  dot : '.' ∉ extension
  separator : '/' ∉ extension

/-- A segment that is a name. -/
def IsName (segment : Text) : Prop :=
  segment ≠ [] ∧ segment ≠ ['.'] ∧ segment ≠ ['.', '.']

/-- A key whose segments are names. -/
def Plain (key : Text) : Prop :=
  ∀ segment ∈ key.splitOn '/', IsName segment

theorem foldl_descend {segments : List Text} (h : ∀ segment ∈ segments, IsName segment) :
    segments.foldl descend directory = directory ++ segments := by
  induction segments generalizing directory with
  | nil => simp
  | cons segment segments ih =>
    obtain ⟨⟨hempty, hdot, hdots⟩, hrest⟩ := List.forall_mem_cons.mp h
    rw [List.foldl_cons, descend, if_neg (not_or.mpr ⟨hempty, hdot⟩), if_neg hdots, ih hrest, List.append_assoc]
    rfl

theorem Plain.not_rooted (h : Plain key) : isPathRooted key = false := by
  cases key with
  | nil => rfl
  | cons c key =>
    have hc : c ≠ '/' := by
      rintro rfl
      have hfirst : [] ∈ ('/' :: key).splitOn '/' := by
        rw [← List.nil_append ('/' :: key), splitOn_append]
        exact List.mem_append_left _ (by simp)
      exact (h [] hfirst).1 rfl
    simp [isPathRooted, hc]

/-- What stands in front of a plain key in a combined path is a directory. -/
theorem exists_combine_eq (first : Text) : ∃ front, (front = [] ∨ ∃ directory, front = directory ++ ['/']) ∧
    ∀ key, key ≠ [] → isPathRooted key = false → combine first key = front ++ key := by
  by_cases hempty : first = []
  · refine ⟨[], .inl rfl, fun key _ _ => ?_⟩
    rw [combine, if_pos hempty]
    rfl
  · have hcombine (key : Text) (hkey : key ≠ []) (hrooted : isPathRooted key = false) :
        combine first key = if first.getLast? = some '/' then first ++ key else first ++ '/' :: key := by
      rw [combine, if_neg hempty, if_neg hkey, if_neg (by simp [hrooted])]
    by_cases hlast : first.getLast? = some '/'
    · refine ⟨first, .inr ⟨first.dropLast, ?_⟩, fun key hkey hrooted => ?_⟩
      · exact (List.dropLast_append_getLast? _ hlast).symm
      · rw [hcombine key hkey hrooted, if_pos hlast]
    · refine ⟨first ++ ['/'], .inr ⟨first, rfl⟩, fun key hkey hrooted => ?_⟩
      rw [hcombine key hkey hrooted, if_neg hlast, List.append_assoc]
      rfl

/-- Below a directory, the full path of a plain key has its segments. -/
theorem exists_fullPath_plain (currentDirectory : List Text) {front : Text}
    (hfront : front = [] ∨ ∃ directory, front = directory ++ ['/']) : ∃ directory, ∀ key, Plain key →
      fullPath currentDirectory (front ++ key) = directory ++ key.splitOn '/' := by
  obtain rfl | ⟨path, rfl⟩ := hfront
  · refine ⟨currentDirectory, fun key hkey => ?_⟩
    rw [List.nil_append, fullPath, hkey.not_rooted, foldl_descend hkey]
    rfl
  · let root := if isPathRooted (path ++ ['/']) then [] else currentDirectory
    refine ⟨(path.splitOn '/').foldl descend root, fun key hkey => ?_⟩
    have hrooted : isPathRooted (path ++ '/' :: key) = isPathRooted (path ++ ['/']) := by
      cases path with
      | nil => rfl
      | cons c path => rfl
    rw [List.append_assoc, List.singleton_append, fullPath, hrooted, splitOn_append, List.foldl_append,
      foldl_descend hkey]

/-- A plain key keeps its names but the last when its extension changes. -/
theorem Plain.changed (h : Plain (path ++ extension)) {other : Text} (hsep : '/' ∉ extension) (hother : '/' ∉ other)
    (hlength : 2 < other.length) : Plain (path ++ other) := by
  obtain ⟨init, last, hsplit⟩ := exists_splitOn_append '/' path
  rw [Plain, hsplit extension hsep] at h
  rw [Plain, hsplit other hother]
  refine List.forall_mem_append.mpr ⟨(List.forall_mem_append.mp h).1, List.forall_mem_singleton.mpr ?_⟩
  have hne (name : Text) (hname : name.length ≤ 2) : last ++ other ≠ name := by
    intro heq
    have hlength' := congrArg List.length heq
    rw [List.length_append] at hlength'
    omega
  exact ⟨hne [] (by decide), hne ['.'] (by decide), hne ['.', '.'] (by decide)⟩

/-- With another extension, two plain keys lead to the same file when they agree up to
their own extensions. -/
theorem fullPath_changeExtension_eq_iff (currentDirectory : List Text) (first : Text)
    {name name' extension extension' other : Text} (hextension : IsExtension extension)
    (hextension' : IsExtension extension') (hother : '/' ∉ other) (hlength : 2 < other.length)
    (hplain : Plain (name ++ '.' :: extension)) (hplain' : Plain (name' ++ '.' :: extension')) :
    fullPath currentDirectory (changeExtension (combine first (name ++ '.' :: extension)) other) =
      fullPath currentDirectory (changeExtension (combine first (name' ++ '.' :: extension')) other) ↔
        name = name' := by
  obtain ⟨front, hfront, hcombine⟩ := exists_combine_eq first
  obtain ⟨directory, hfull⟩ := exists_fullPath_plain currentDirectory hfront
  have hpath {name extension : Text} (hextension : IsExtension extension) (hplain : Plain (name ++ '.' :: extension)) :
      fullPath currentDirectory (changeExtension (combine first (name ++ '.' :: extension)) other) =
        directory ++ (name ++ other).splitOn '/' := by
    have hcombined := hcombine (name ++ '.' :: extension) (by simp) hplain.not_rooted
    rw [changeExtension, if_neg (combine_ne_nil first (by simp)), hcombined, ← List.append_assoc,
      dropExtension_append _ hextension.dot hextension.separator, List.append_assoc]
    refine hfull _ (hplain.changed ?_ hother hlength)
    simpa using hextension.separator
  rw [hpath hextension hplain, hpath hextension' hplain', List.append_cancel_left_eq]
  constructor
  · intro heq
    have hjoin := congrArg (List.intercalate ['/']) heq
    rw [List.intercalate_splitOn, List.intercalate_splitOn] at hjoin
    exact List.append_cancel_right hjoin
  · rintro rfl
    rfl

end paths

end solution_library.paths
