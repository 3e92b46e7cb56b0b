import SolutionLibrary.Library.Tsv

namespace solution_library.tracker_import

open text tsv

inductive Table where
  | issues
  | changelog
  deriving DecidableEq

def ISSUES_COLUMNS : List String :=
  ["organization_id", "id", "key", "version", "storyPoints", "summary", "statusStartTime", "boards_names", "createdAt",
    "commentWithoutExternalMessageCount", "votes", "commentWithExternalMessageCount", "deadline", "updatedAt",
    "favorite", "updatedBy_display", "type_display", "priority_display", "createdBy_display", "assignee_display",
    "queue_key", "queue_display", "status_display", "previousStatus_display", "parent_key", "parent_display",
    "components_display", "sprint_display", "epic_display", "previousStatusLastAssignee_display",
    "originalEstimation", "spent", "tags", "estimation", "checklistDone", "checklistTotal", "emailCreatedBy", "sla",
    "emailTo", "emailFrom", "lastCommentUpdatedAt", "followers", "pendingReplyFrom", "end", "start",
    "project_display", "votedBy_display", "aliases", "previousQueue_display", "access", "resolvedAt",
    "resolvedBy_display", "resolution_display", "lastQueue_display"]

def ISSUE_CHANGELOG_COLUMNS : List String :=
  ["organization_id", "id", "issue_key", "updatedAt", "updatedBy_display", "type", "field_display", "from_display",
    "to_display", "worklog"]

def Table.columns : Table → List Text
  | .issues => ISSUES_COLUMNS.map String.toList
  | .changelog => ISSUE_CHANGELOG_COLUMNS.map String.toList

/-- A table of strings with a cell for each column in each row. -/
structure DataFrame (columns : List Text) where
  rows : List (List Text)
  width : ∀ row ∈ rows, row.length = columns.length

/-- The replacement of `"\n"` by `"\\\n"` in a cell: a backslash before each line feed. -/
def escapeNewlines (cell : Text) : Text :=
  cell.flatMap fun c => if c = '\n' then ['\\', '\n'] else [c]

def needsQuotes (field : Text) : Bool :=
  field.any fun c => c = '\t' || c = '"' || c = '\r' || c = '\n'

/-- A field in the text of `to_csv`. -/
def quoted (field : Text) : Text :=
  if needsQuotes field then '"' :: (field.flatMap fun c => if c = '"' then ['"', '"'] else [c]) ++ ['"']
  else field

/-- A row in the text of `to_csv(sep='\t')`. -/
def csvLine : List Text → Text
  | [] => ['\n']
  | [field] => quoted field ++ ['\n']
  | field :: rest => quoted field ++ '\t' :: csvLine rest

def to_csv (columns : List Text) (rows : List (List Text)) : Text :=
  (columns :: rows).flatMap csvLine

/-- The text that `upload_data_to_db` sends for a table. -/
def content {columns : List Text} (frame : DataFrame columns) : Text :=
  to_csv columns (frame.rows.map fun row => row.map escapeNewlines)

/-- A character that the two encodings leave alone and the decoding too. -/
def isPlain (c : Char) : Bool :=
  c ≠ '\t' && c ≠ '"' && c ≠ '\r' && c ≠ '\n' && c ≠ '\\'

def Plain (cell : Text) : Prop :=
  ∀ c ∈ cell, isPlain c = true

instance (cell : Text) : Decidable (Plain cell) :=
  decidable_of_iff (cell.all isPlain = true) List.all_eq_true

/-- A cell as it is sent. -/
def field (cell : Text) : Text :=
  quoted (escapeNewlines cell)

def fieldsText : List (Text × Char) → Text
  | [] => []
  | (cell, sep) :: rest => field cell ++ sep :: fieldsText rest

section field

variable {cell : Text} {c sep : Char} {rest : Text}

theorem isPlain_iff : isPlain c = true ↔ c ≠ '\t' ∧ c ≠ '"' ∧ c ≠ '\r' ∧ c ≠ '\n' ∧ c ≠ '\\' := by
  simp [isPlain, and_assoc]

theorem escapeNewlines_eq (h : '\n' ∉ cell) : escapeNewlines cell = cell := by
  induction cell with
  | nil => rfl
  | cons c cell ih =>
    rw [List.mem_cons, not_or] at h
    rw [escapeNewlines, List.flatMap_cons, if_neg (Ne.symm h.1)]
    exact congrArg (c :: ·) (ih h.2)

theorem mem_escapeNewlines (h : c ∈ cell) : c ∈ escapeNewlines cell := by
  refine List.mem_flatMap.mpr ⟨c, h, ?_⟩
  split_ifs with hc
  · simp [hc]
  · exact List.mem_singleton_self c

theorem needsQuotes_eq_false_iff :
    needsQuotes cell = false ↔ ∀ c ∈ cell, c ≠ '\t' ∧ c ≠ '"' ∧ c ≠ '\r' ∧ c ≠ '\n' := by
  simp [needsQuotes, and_assoc]

theorem Plain.needsQuotes (h : Plain cell) : needsQuotes cell = false := by
  rw [needsQuotes_eq_false_iff]
  intro c hc
  have hplain := isPlain_iff.mp (h c hc)
  exact ⟨hplain.1, hplain.2.1, hplain.2.2.1, hplain.2.2.2.1⟩

theorem Plain.field_eq (h : Plain cell) : field cell = cell := by
  have hnewline : '\n' ∉ cell := fun hmem => absurd (h _ hmem) (by decide)
  rw [field, escapeNewlines_eq hnewline, quoted, h.needsQuotes, if_neg Bool.false_ne_true]

theorem Plain.tokens_field (h : Plain cell) (hsep : isSeparator sep = true) (rest : Text) :
    tokens (field cell ++ sep :: rest) = cell.map .char ++ token sep :: tokens rest := by
  have hbackslash : '\\' ∉ cell := fun hmem => absurd (h _ hmem) (by decide)
  have hsep' : sep ≠ '\\' := by
    rintro rfl
    cases hsep
  have hchar : cell.map token = cell.map .char := by
    refine List.map_congr_left fun c hc => token_eq_char ?_
    have hplain := isPlain_iff.mp (h c hc)
    simp [isSeparator, hplain.1, hplain.2.2.2.1]
  rw [h.field_eq, tokens_append hbackslash, tokens_cons hsep', hchar]

theorem flatMap_quotes (n : ℕ) : ((List.replicate n '"').flatMap fun c => if c = '"' then ['"', '"'] else [c]) =
    List.replicate (2 * n) '"' := by
  induction n with
  | zero => rfl
  | succ n ih =>
    rw [List.replicate_succ, List.flatMap_cons, ih, show 2 * (n + 1) = 2 * n + 1 + 1 by omega, List.replicate_succ,
      List.replicate_succ]
    rfl

/-- A quoted cell starts with one more quote than the cell itself, at least. -/
theorem replicate_isPrefix_field {n : ℕ} (h : needsQuotes (escapeNewlines cell) = true)
    (hcell : List.replicate n '"' <+: cell) : List.replicate (n + 1) '"' <+: field cell := by
  obtain ⟨others, rfl⟩ := hcell
  have hquotes : escapeNewlines (List.replicate n '"') = List.replicate n '"' := by
    refine escapeNewlines_eq fun hmem => ?_
    cases List.eq_of_mem_replicate hmem
  have hescape : escapeNewlines (List.replicate n '"' ++ others) = List.replicate n '"' ++ escapeNewlines others := by
    rw [escapeNewlines, List.flatMap_append]
    exact congrArg (· ++ escapeNewlines others) hquotes
  rw [field, quoted, if_pos h, hescape, List.flatMap_append, flatMap_quotes, List.replicate_succ,
    List.cons_append, show 2 * n = n + n by omega, List.replicate_add, List.append_assoc, List.append_assoc]
  exact List.cons_prefix_cons.mpr ⟨rfl, List.prefix_append _ _⟩

/-- A quoted cell is not read as the cell: it would have to start with any number of quotes. -/
theorem not_isPrefix_of_needsQuotes (h : needsQuotes (escapeNewlines cell) = true) (hsep : isSeparator sep = true)
    (after : List Token) : ¬ tokens (field cell ++ sep :: rest) <+: cell.map .char ++ token sep :: after := by
  intro hprefix
  have hquotes (n : ℕ) : List.replicate n '"' <+: cell := by
    induction n with
    | zero => exact List.nil_prefix
    | succ n ih =>
      obtain ⟨others, hfield⟩ := replicate_isPrefix_field h ih
      have hbackslash : '\\' ∉ List.replicate (n + 1) '"' := fun hmem => by cases List.eq_of_mem_replicate hmem
      rw [← hfield, List.append_assoc, tokens_append hbackslash, List.map_replicate] at hprefix
      exact isPrefix_of_replicate hsep ((List.prefix_append _ _).trans hprefix)
  have hlength := (hquotes (cell.length + 1)).length_le
  rw [List.length_replicate] at hlength
  omega

theorem plain_of_isPrefix (hsep : isSeparator sep = true) {after : List Token}
    (h : tokens (field cell ++ sep :: rest) <+: cell.map .char ++ token sep :: after) : Plain cell := by
  by_contra hplain
  cases hquotes : needsQuotes (escapeNewlines cell) with
  | true => exact not_isPrefix_of_needsQuotes hquotes hsep after h
  | false =>
    have hcell (c : Char) (hc : c ∈ cell) := needsQuotes_eq_false_iff.mp hquotes c (mem_escapeNewlines hc)
    have hescape : escapeNewlines cell = cell := escapeNewlines_eq fun hmem => (hcell _ hmem).2.2.2 rfl
    have hfield : field cell = cell := by
      rw [field, quoted, hquotes, if_neg Bool.false_ne_true, hescape]
    have hbackslash : '\\' ∈ cell := by
      by_contra hnot
      refine hplain fun c hc => isPlain_iff.mpr ?_
      exact ⟨(hcell c hc).1, (hcell c hc).2.1, (hcell c hc).2.2.1, (hcell c hc).2.2.2, fun heq => hnot (heq ▸ hc)⟩
    have hseparator (c : Char) (hc : c ∈ cell) : isSeparator c = false := by
      simp [isSeparator, (hcell c hc).1, (hcell c hc).2.2.2]
    rw [hfield] at h
    exact not_isPrefix_of_backslash hsep hseparator hbackslash _ h

end field

section fieldsText

variable {cells row : List Text} {columns : List Text} {rows : List (List Text)}

theorem fieldsText_append (first second : List (Text × Char)) :
    fieldsText (first ++ second) = fieldsText first ++ fieldsText second := by
  induction first with
  | nil => rfl
  | cons head first ih => rw [List.cons_append, fieldsText, fieldsText, ih, List.append_assoc, List.cons_append]

theorem csvLine_eq (h : row ≠ []) : csvLine (row.map escapeNewlines) = fieldsText (fields row) := by
  fun_induction fields row with
  | case1 => exact absurd rfl h
  | case2 cell => rfl
  | case3 cell cells hcells ih =>
    obtain ⟨next, cells, rfl⟩ := List.exists_cons_of_ne_nil hcells
    rw [List.map_cons, List.map_cons, csvLine, ← List.map_cons, ih (List.cons_ne_nil next cells)]
    · rfl
    · exact List.cons_ne_nil _ _

theorem flatMap_csvLine (h : ∀ row ∈ rows, row ≠ []) :
    (rows.map fun row => row.map escapeNewlines).flatMap csvLine = fieldsText (rows.flatMap fields) := by
  induction rows with
  | nil => rfl
  | cons row rows ih =>
    obtain ⟨hrow, hrows⟩ := List.forall_mem_cons.mp h
    rw [List.map_cons, List.flatMap_cons, List.flatMap_cons, fieldsText_append, csvLine_eq hrow, ih hrows]

theorem tokens_fieldsText {cellsOf : List (Text × Char)} (hsep : ∀ f ∈ cellsOf, isSeparator f.2 = true)
    (hplain : ∀ f ∈ cellsOf, Plain f.1) : tokens (fieldsText cellsOf) = fieldTokens cellsOf := by
  induction cellsOf with
  | nil => exact tokens_nil
  | cons head rest ih =>
    obtain ⟨hhead, hrest⟩ := List.forall_mem_cons.mp hplain
    obtain ⟨hseparator, hseparators⟩ := List.forall_mem_cons.mp hsep
    rw [fieldsText, hhead.tokens_field hseparator, ih hseparators hrest]
    rfl

theorem plain_of_tokens {cellsOf : List (Text × Char)} (hsep : ∀ f ∈ cellsOf, isSeparator f.2 = true)
    (h : tokens (fieldsText cellsOf) <+: fieldTokens cellsOf) : ∀ f ∈ cellsOf, Plain f.1 := by
  induction cellsOf with
  | nil => exact fun f hf => absurd hf List.not_mem_nil
  | cons head rest ih =>
    obtain ⟨cell, sep⟩ := head
    obtain ⟨hseparator, hseparators⟩ := List.forall_mem_cons.mp hsep
    have hplain : Plain cell := plain_of_isPrefix hseparator h
    rw [fieldsText, hplain.tokens_field hseparator, fieldTokens, List.prefix_append_right_inj,
      List.cons_prefix_cons] at h
    exact List.forall_mem_cons.mpr ⟨hplain, ih hseparators h.2⟩

theorem isSeparator_of_mem_flatMap {f : Text × Char} (h : f ∈ rows.flatMap fields) : isSeparator f.2 = true := by
  obtain ⟨row, -, hf⟩ := List.mem_flatMap.mp h
  exact isSeparator_of_mem_fields hf

theorem forall_fields_iff {property : Text → Prop} :
    (∀ f ∈ rows.flatMap fields, property f.1) ↔ ∀ row ∈ rows, ∀ cell ∈ row, property cell := by
  have hrow (row : List Text) : (∀ cell ∈ row, property cell) ↔ ∀ f ∈ fields row, property f.1 := by
    conv_lhs => rw [← map_fst_fields row]
    exact List.forall_mem_map
  simp only [hrow, List.mem_flatMap]
  exact ⟨fun h row hr f hf => h f ⟨row, hr, hf⟩, fun h f ⟨row, hr, hf⟩ => h row hr f hf⟩

/-- A text is read back as the rows it was made of exactly where each cell is plain. -/
theorem decode_fieldsText_iff (h : ∀ row ∈ rows, row ≠ []) :
    decode (fieldsText (rows.flatMap fields)) = rows ↔ ∀ row ∈ rows, ∀ cell ∈ row, Plain cell := by
  have hsep : ∀ f ∈ rows.flatMap fields, isSeparator f.2 = true := fun f hf => isSeparator_of_mem_flatMap hf
  rw [← forall_fields_iff]
  constructor
  · intro hdecode
    have hprefix := isPrefix_fieldTokens (tokens (fieldsText (rows.flatMap fields)))
    rw [← decode, hdecode] at hprefix
    exact plain_of_tokens hsep hprefix
  · intro hplain
    rw [decode, tokens_fieldsText hsep hplain, records_fieldTokens h]

end fieldsText

section content

variable {table : Table}

theorem Table.plain_columns (table : Table) : ∀ column ∈ table.columns, Plain column := by
  cases table with
  | issues => decide +kernel
  | changelog => decide +kernel

theorem Table.columns_ne_nil (table : Table) : table.columns ≠ [] := by
  cases table with
  | issues => exact List.cons_ne_nil _ _
  | changelog => exact List.cons_ne_nil _ _

theorem row_ne_nil (frame : DataFrame table.columns) : ∀ row ∈ table.columns :: frame.rows, row ≠ [] := by
  refine List.forall_mem_cons.mpr ⟨table.columns_ne_nil, fun row hrow hnil => ?_⟩
  have hwidth := frame.width row hrow
  rw [hnil] at hwidth
  exact table.columns_ne_nil (List.length_eq_zero_iff.mp hwidth.symm)

theorem content_eq (frame : DataFrame table.columns) :
    content frame = fieldsText ((table.columns :: frame.rows).flatMap fields) := by
  have hcolumns : table.columns.map escapeNewlines = table.columns := by
    refine (List.map_congr_left fun column hcolumn => ?_).trans (List.map_id _)
    exact escapeNewlines_eq fun hmem => absurd (table.plain_columns column hcolumn _ hmem) (by decide)
  rw [← flatMap_csvLine (row_ne_nil frame), List.map_cons, hcolumns]
  rfl

/-- What is sent for a table is read back as the table exactly where no cell has a tab, a double quote, a carriage
return, a line feed or a backslash. -/
theorem decode_content_iff (table : Table) (frame : DataFrame table.columns) :
    decode (content frame) = table.columns :: frame.rows ↔ ∀ row ∈ frame.rows, ∀ cell ∈ row, Plain cell := by
  rw [content_eq, decode_fieldsText_iff (row_ne_nil frame), List.forall_mem_cons]
  exact and_iff_right table.plain_columns

/-- An issue with a summary of two lines; its other cells are empty. -/
def twoLineSummary : DataFrame Table.issues.columns where
  rows := [List.replicate 5 [] ++ "Import\nfails".toList :: List.replicate 48 []]
  width row hrow := by
    rw [List.mem_singleton.mp hrow, Table.columns, List.length_map, List.length_append, List.length_cons,
      List.length_replicate, List.length_replicate]
    rfl

/-- The summary comes back with a double quote at each end. -/
theorem twoLineSummary_not_read : decode (content twoLineSummary) ≠ Table.issues.columns :: twoLineSummary.rows := by
  rw [content_eq, Ne, decode_fieldsText_iff (row_ne_nil twoLineSummary)]
  intro hplain
  have hsummary := hplain _ (List.mem_cons_of_mem _ List.mem_cons_self) "Import\nfails".toList (by simp)
  exact absurd hsummary (by decide)

end content

end solution_library.tracker_import
