import Mathlib.Data.List.Perm.Basic
import SolutionLibrary.TrackerImport.Scroll

namespace solution_library.tracker_import

/-- A point of time, in milliseconds of the clock that Tracker and the tables share. -/
abbrev DateTime := ℕ

structure Issue where
  id : String
  key : String
  summary : String
  updatedAt : DateTime
  deriving DecidableEq

/-- The value of a field before or after a change. -/
structure FieldValue where
  display : Option String
  text : String
  deriving DecidableEq

/-- A change of one field in an entry of a changelog. -/
structure FieldChange where
  id : String
  display : Option String
  source : Option FieldValue
  target : Option FieldValue
  deriving DecidableEq

/-- An entry of a changelog. -/
structure Entry where
  id : String
  issue_key : String
  updatedAt : DateTime
  updatedBy_display : String
  type : String
  fields : List FieldChange
  deriving DecidableEq

structure IssueRow where
  id : String
  key : String
  summary : String
  updatedAt : DateTime
  deriving DecidableEq

structure ChangelogRow where
  id : String
  issue_key : String
  updatedAt : DateTime
  updatedBy_display : String
  type : String
  field_display : Option String
  from_display : String
  to_display : String
  deriving DecidableEq

structure Db where
  issues : List IssueRow
  changelog : List ChangelogRow
  deriving DecidableEq

/-- What Tracker holds during one run. `pages` are the answers to the query for the issues updated after a time,
`changelog` the first page and the linked pages of an issue's changelog. A changelog may have grown since the search. -/
structure Tracker where
  issues : List Issue
  entries : String → List Entry
  ago : String → DateTime
  pages : DateTime → List (List Issue)
  changelog : String → List Entry × List (List Entry)
  scroll_id : String
  scroll_token : String
  pages_exact : ∀ start, (pages start).flatten.Perm (issues.filter fun issue => start < issue.updatedAt)
  entries_subset : ∀ key, entries key ⊆ (changelog key).1 ++ (changelog key).2.flatten

/-- What becomes of an insert: stored and answered, neither, or stored without an answer. -/
inductive Upload where
  | accepted
  | refused
  | lost
  deriving DecidableEq

def Upload.stores : Upload → Bool
  | accepted => true
  | refused => false
  | lost => true

def Upload.answers : Upload → Bool
  | accepted => true
  | refused => false
  | lost => false

/-- The statements of `init_database`. -/
inductive Statement where
  | create_issues_table
  | create_changelog_table
  | create_issues_view
  | create_changelog_view
  | create_open_issues_view
  deriving DecidableEq

/-- Which HTTP calls of a run are answered; the others raise. Searches and the pages of a changelog are numbered. -/
structure Calls where
  statement : Statement → Bool
  max_updated_at : Bool
  search : ℕ → Bool
  changelog : String → ℕ → Bool
  upload_issues : Upload
  upload_changelog : Upload

structure Run where
  tracker : Tracker
  calls : Calls

/-- What a handler run leaves: the tables, the issues that Tracker returned to it, the answer unless it raised. -/
structure Outcome where
  db : Db
  returned : List Issue
  statusCode : Option ℕ

/-- The queries that `get_issues_query_text` writes: `updated: > "time"` and `updated: >now()-depth`. -/
inductive Query where
  | updatedAfter (start : DateTime)
  | updatedSince (depth : String)
  deriving DecidableEq

def min_dt : DateTime := 3 * 60 * 60 * 1000

def fiveMinutes : DateTime := 5 * 60 * 1000

/-- `MAX(updatedAt)`, which is the epoch for an empty table. -/
def maxUpdatedAt (rows : List IssueRow) : DateTime :=
  ((rows.map IssueRow.updatedAt).max?).getD min_dt

/-- The milliseconds are cut off the answer. -/
def seconds (time : DateTime) : DateTime :=
  time / 1000 * 1000

def get_issues_query_text (TRACKER_INITIAL_HISTORY_DEPTH : Option String) (db : Db) : Query :=
  let latest_record_time := seconds (maxUpdatedAt db.issues)
  if min_dt < latest_record_time then .updatedAfter (latest_record_time - fiveMinutes)
  else
    match TRACKER_INITIAL_HISTORY_DEPTH with
    | none => .updatedSince "1y"
    | some depth => if depth = "" then .updatedSince "1y" else .updatedSince depth

/-- The time after which an issue has to be updated for a query to find it. -/
def Tracker.start (tracker : Tracker) : Query → DateTime
  | .updatedAfter start => start
  | .updatedSince depth => tracker.ago depth

/-- Tracker as the server of one search. -/
def Run.server (run : Run) (start : DateTime) : SearchServer Issue where
  first :=
    if run.calls.search 0 then
      some ((run.tracker.pages start).headD [],
        ⟨(run.tracker.pages start).flatten.length, run.tracker.scroll_id, run.tracker.scroll_token⟩)
    else none
  later request _ _ :=
    if run.calls.search (request + 1) then some ((run.tracker.pages start).getD (request + 1) []) else none

/-- The loop over the linked pages of a changelog. -/
def links (answered : ℕ → Bool) : ℕ → List Entry → List (List Entry) → Option (List Entry)
  | _, changelogs, [] => some changelogs
  | page, changelogs, next :: rest =>
    if answered page then links answered (page + 1) (changelogs ++ next) rest else none

def Run.get_tracker_issue_changelog_for_key (run : Run) (issue_key : String) : Option (List Entry) :=
  if run.calls.changelog issue_key 0 then
    links (run.calls.changelog issue_key) 1 (run.tracker.changelog issue_key).1 (run.tracker.changelog issue_key).2
  else none

def Run.get_tracker_issues_changelog (run : Run) : List Issue → Option (List Entry)
  | [] => some []
  | issue :: issues => do
    let changelogs ← run.get_tracker_issue_changelog_for_key issue.key
    let rest ← run.get_tracker_issues_changelog issues
    return changelogs ++ rest

def shape_issues_data (issues : List Issue) : List IssueRow :=
  issues.map fun issue => ⟨issue.id, issue.key, issue.summary, issue.updatedAt⟩

def get_subfield_display (change : FieldChange) (subfield : Option FieldValue) : String :=
  if change.id ∈ ["status", "resolution", "assignee"] then
    match subfield with
    | some value => value.display.getD value.text
    | none => ""
  else ""

/-- The rows of an entry, one for each field. An entry without a field has nothing to take a display from. -/
def entryRows (entry : Entry) : Option (List ChangelogRow) :=
  if entry.fields = [] then none
  else some (entry.fields.map fun change =>
    ⟨entry.id, entry.issue_key, entry.updatedAt, entry.updatedBy_display, entry.type, change.display,
      get_subfield_display change change.source, get_subfield_display change change.target⟩)

def shape_issue_changelog_data : List Entry → Option (List ChangelogRow)
  | [] => some []
  | entry :: entries => do
    let rows ← entryRows entry
    let rest ← shape_issue_changelog_data entries
    return rows ++ rest

/-- The rows of a table after an insert. -/
def upload_clickhouse_data {α : Type} (upload : Upload) (data table : List α) : List α :=
  if upload.stores then table ++ data else table

/-- The uploads of a run: the tables after them, and whether they returned. The issues are uploaded where there is a
changelog, and before it. -/
def upload_data_to_db (calls : Calls) (issues : List Issue) (issues_changelogs : List Entry) (db : Db) : Db × Bool :=
  if issues_changelogs = [] then (db, true)
  else
    match shape_issue_changelog_data issues_changelogs with
    | none => (db, false)
    | some changelog_df =>
      -- without an issue there is no `issues_content` to upload
      if issues = [] then (db, false)
      else
        let issues_table := upload_clickhouse_data calls.upload_issues (shape_issues_data issues) db.issues
        let uploaded := { db with issues := issues_table }
        if calls.upload_issues.answers then
          ({ uploaded with changelog := upload_clickhouse_data calls.upload_changelog changelog_df db.changelog },
            calls.upload_changelog.answers)
        else (uploaded, false)

def init_database (calls : Calls) : Bool :=
  calls.statement .create_issues_table && calls.statement .create_changelog_table &&
    calls.statement .create_issues_view && calls.statement .create_changelog_view &&
    calls.statement .create_open_issues_view

def Run.start (run : Run) (depth : Option String) (db : Db) : DateTime :=
  run.tracker.start (get_issues_query_text depth db)

def Run.get_tracker_issues (run : Run) (start : DateTime) : Search Issue :=
  (run.server start).get_tracker_issues (run.tracker.pages start).length

def handler (depth : Option String) (run : Run) (db : Db) : Outcome :=
  if init_database run.calls && run.calls.max_updated_at then
    match run.get_tracker_issues (run.start depth db) with
    | .loaded issues =>
      match run.get_tracker_issues_changelog issues with
      | none => ⟨db, issues, none⟩
      | some issues_changelogs =>
        let (uploaded, returns) := upload_data_to_db run.calls issues issues_changelogs db
        ⟨uploaded, issues, if returns then some 200 else none⟩
    | .raised issues => ⟨db, issues, none⟩
    | .running issues => ⟨db, issues, none⟩
  else ⟨db, [], none⟩

end solution_library.tracker_import
