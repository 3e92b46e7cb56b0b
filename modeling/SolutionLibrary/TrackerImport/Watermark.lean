import SolutionLibrary.Library.Invariant
import SolutionLibrary.TrackerImport.Script

namespace solution_library.tracker_import

open invariant

/-- A version of an issue that Tracker returned, with its workflow changelog. -/
structure Version where
  issue : Issue
  entries : List Entry

/-- All rows of an entry stand in the changelog table. -/
def Db.Holds (db : Db) (entry : Entry) : Prop :=
  ∃ rows, entryRows entry = some rows ∧ rows ⊆ db.changelog

/-- The issues table has a row of the issue that is at least as new. An issue keeps its id
also where it moves to another queue. -/
def Db.UpToDate (db : Db) (issue : Issue) : Prop :=
  ∃ row ∈ db.issues, row.id = issue.id ∧ issue.updatedAt ≤ row.updatedAt

def Db.Stores (db : Db) (version : Version) : Prop :=
  db.UpToDate version.issue ∧ ∀ entry ∈ version.entries, db.Holds entry

namespace Tracker

/-- The changelog of an issue as a run reads it. -/
def fetched (tracker : Tracker) (key : String) : List Entry :=
  (tracker.changelog key).1 ++ (tracker.changelog key).2.flatten

/-- The issues updated after a time. -/
def updated (tracker : Tracker) (start : DateTime) : List Issue :=
  tracker.issues.filter fun issue => start < issue.updatedAt

theorem mem_updated {tracker : Tracker} {start : DateTime} {issue : Issue} :
    issue ∈ tracker.updated start ↔ issue ∈ tracker.issues ∧ start < issue.updatedAt := by
  simp [updated]

end Tracker

section search

variable {run : Run} {start : DateTime}

theorem flatten_take_add_one (pages : List (List Issue)) (n : ℕ) :
    (pages.take (n + 1)).flatten = (pages.take n).flatten ++ pages.getD n [] := by
  rw [List.take_add_one, List.flatten_append, List.getD_eq_getElem?_getD]
  cases pages[n]? with
  | none => rfl
  | some page => simp

/-- With each request the next page is collected, until all are. -/
theorem scroll_server (fuel request : ℕ) (hfuel : (run.tracker.pages start).length ≤ request + 1 + fuel)
    {headers : SearchHeaders} (htotal : headers.total_count = (run.tracker.pages start).flatten.length) :
    (run.server start).scroll headers fuel request ((run.tracker.pages start).take (request + 1)).flatten =
        .loaded (run.tracker.pages start).flatten ∨
      ∃ n, (run.server start).scroll headers fuel request ((run.tracker.pages start).take (request + 1)).flatten =
        .raised ((run.tracker.pages start).take n).flatten := by
  have hflatten := fun n => congrArg List.flatten (List.take_append_drop n (run.tracker.pages start))
  simp only [List.flatten_append] at hflatten
  have hfull {n : ℕ} (h : headers.total_count ≤ ((run.tracker.pages start).take n).flatten.length) :
      ((run.tracker.pages start).take n).flatten = (run.tracker.pages start).flatten := by
    have hprefix : ((run.tracker.pages start).take n).flatten <+: (run.tracker.pages start).flatten := ⟨_, hflatten n⟩
    exact hprefix.eq_of_length_le (by omega)
  induction fuel generalizing request with
  | zero =>
    have hall : (run.tracker.pages start).take (request + 1) = run.tracker.pages start := List.take_of_length_le hfuel
    rw [hall]
    exact .inl (SearchServer.scroll_loaded htotal.le 0 request)
  | succ fuel ih =>
    obtain hmore | hdone := lt_or_ge (((run.tracker.pages start).take (request + 1)).flatten.length : ℤ)
      headers.total_count
    · rw [SearchServer.scroll_succ hmore]
      cases hanswer : run.calls.search (request + 1) with
      | false =>
        simp only [Run.server, hanswer, Bool.false_eq_true, if_false]
        exact .inr ⟨request + 1, rfl⟩
      | true =>
        have htake := flatten_take_add_one (run.tracker.pages start) (request + 1)
        have hrest := ih (request + 1) (by omega)
        rw [htake] at hrest
        simpa only [Run.server, hanswer, if_true] using hrest
    · rw [SearchServer.scroll_loaded hdone, hfull hdone]
      exact .inl rfl

/-- A search returns the updated issues, or raises with some of them. -/
theorem get_tracker_issues_cases (run : Run) (start : DateTime) :
    run.get_tracker_issues start = .loaded (run.tracker.pages start).flatten ∨
      ∃ n, run.get_tracker_issues start = .raised ((run.tracker.pages start).take n).flatten := by
  rw [Run.get_tracker_issues, SearchServer.get_tracker_issues]
  cases hanswer : run.calls.search 0 with
  | false =>
    simp only [Run.server, hanswer, Bool.false_eq_true, if_false]
    exact .inr ⟨0, rfl⟩
  | true =>
    have hfirst : (run.tracker.pages start).headD [] = ((run.tracker.pages start).take (0 + 1)).flatten := by
      cases run.tracker.pages start with
      | nil => rfl
      | cons page pages => simp
    have hscroll := @scroll_server run start (run.tracker.pages start).length 0 (by omega)
      ⟨(run.tracker.pages start).flatten.length, run.tracker.scroll_id, run.tracker.scroll_token⟩ rfl
    rw [← hfirst] at hscroll
    simpa only [Run.server, hanswer, if_true] using hscroll

end search

section changelog

variable {run : Run}

theorem links_eq_some {answered : ℕ → Bool} {page : ℕ} {changelogs entries : List Entry} {rest : List (List Entry)}
    (h : links answered page changelogs rest = some entries) : entries = changelogs ++ rest.flatten := by
  induction rest generalizing page changelogs with
  | nil => rw [← Option.some.inj h, List.flatten_nil, List.append_nil]
  | cons next rest ih =>
    rw [links] at h
    split_ifs at h
    rw [ih h, List.flatten_cons, List.append_assoc]

theorem get_tracker_issue_changelog_for_key_eq_some {key : String} {entries : List Entry}
    (h : run.get_tracker_issue_changelog_for_key key = some entries) : entries = run.tracker.fetched key := by
  rw [Run.get_tracker_issue_changelog_for_key] at h
  split_ifs at h
  exact links_eq_some h

theorem get_tracker_issues_changelog_eq_some {issues : List Issue} {entries : List Entry}
    (h : run.get_tracker_issues_changelog issues = some entries) :
    entries = issues.flatMap fun issue => run.tracker.fetched issue.key := by
  induction issues generalizing entries with
  | nil => exact (Option.some.inj h).symm
  | cons issue issues ih =>
    simp only [Run.get_tracker_issues_changelog, Option.bind_eq_bind, Option.bind_eq_some_iff, Option.pure_def,
      Option.some.injEq] at h
    obtain ⟨changelogs, hchangelogs, others, hothers, rfl⟩ := h
    rw [get_tracker_issue_changelog_for_key_eq_some hchangelogs, ih hothers, List.flatMap_cons]

/-- The rows of the entries, whose table is built only where all of them have rows. -/
theorem mem_shape_issue_changelog_data {entries : List Entry} {rows : List ChangelogRow}
    (h : shape_issue_changelog_data entries = some rows) {row : ChangelogRow} :
    row ∈ rows ↔ ∃ entry ∈ entries, ∃ part, entryRows entry = some part ∧ row ∈ part := by
  induction entries generalizing rows with
  | nil =>
    cases h
    simp
  | cons entry entries ih =>
    simp only [shape_issue_changelog_data, Option.bind_eq_bind, Option.bind_eq_some_iff, Option.pure_def,
      Option.some.injEq] at h
    obtain ⟨part, hpart, others, hothers, rfl⟩ := h
    rw [List.mem_append, ih hothers]
    simp [hpart]

theorem isSome_entryRows {entries : List Entry} {rows : List ChangelogRow}
    (h : shape_issue_changelog_data entries = some rows) : ∀ entry ∈ entries, ∃ part, entryRows entry = some part := by
  induction entries generalizing rows with
  | nil => exact fun _ he => absurd he List.not_mem_nil
  | cons entry entries ih =>
    simp only [shape_issue_changelog_data, Option.bind_eq_bind, Option.bind_eq_some_iff, Option.pure_def,
      Option.some.injEq] at h
    obtain ⟨part, hpart, others, hothers, rfl⟩ := h
    exact List.forall_mem_cons.mpr ⟨⟨part, hpart⟩, ih hothers⟩

end changelog

section handler

variable {depth : Option String} {run : Run} {db : Db}

/-- The issues that a run's query finds. -/
def Run.found (run : Run) (depth : Option String) (db : Db) : List Issue :=
  run.tracker.updated (run.start depth db)

theorem Upload.stores_of_answers {upload : Upload} (h : upload.answers = true) : upload.stores = true := by
  cases upload with
  | accepted => rfl
  | refused => cases h
  | lost => cases h

/-- Uploads that return have uploaded both tables, or there was no changelog. -/
theorem upload_data_to_db_ok {calls : Calls} {issues : List Issue} {changelogs : List Entry}
    (h : (upload_data_to_db calls issues changelogs db).2 = true) :
    changelogs = [] ∧ (upload_data_to_db calls issues changelogs db).1 = db ∨
      changelogs ≠ [] ∧ ∃ rows, shape_issue_changelog_data changelogs = some rows ∧
        (upload_data_to_db calls issues changelogs db).1 =
          ⟨db.issues ++ shape_issues_data issues, db.changelog ++ rows⟩ := by
  by_cases hempty : changelogs = []
  · rw [upload_data_to_db, if_pos hempty]
    exact .inl ⟨hempty, rfl⟩
  · refine .inr ⟨hempty, ?_⟩
    cases hshape : shape_issue_changelog_data changelogs with
    | none =>
      simp only [upload_data_to_db, if_neg hempty, hshape] at h
      cases h
    | some rows =>
      by_cases hissues : issues = []
      · simp only [upload_data_to_db, if_neg hempty, hshape, if_pos hissues] at h
        cases h
      · cases hanswers : calls.upload_issues.answers with
        | false =>
          simp only [upload_data_to_db, if_neg hempty, hshape, if_neg hissues, hanswers, Bool.false_eq_true,
            if_false] at h
        | true =>
          simp only [upload_data_to_db, if_neg hempty, hshape, if_neg hissues, hanswers, if_true] at h ⊢
          refine ⟨rows, rfl, ?_⟩
          simp only [upload_clickhouse_data, Upload.stores_of_answers hanswers, Upload.stores_of_answers h, if_true]

/-- A run that returns has searched through all issues of its query and read all their changelogs. -/
theorem handler_eq_of_ok (h : (handler depth run db).statusCode = some 200) :
    (handler depth run db).returned = (run.tracker.pages (run.start depth db)).flatten ∧
      ∃ changelogs, changelogs =
          (handler depth run db).returned.flatMap (fun issue => run.tracker.fetched issue.key) ∧
        (upload_data_to_db run.calls (handler depth run db).returned changelogs db).2 = true ∧
        (handler depth run db).db = (upload_data_to_db run.calls (handler depth run db).returned changelogs db).1 := by
  rw [handler] at h ⊢
  split_ifs at h ⊢
  obtain hloaded | ⟨n, hraised⟩ := get_tracker_issues_cases run (run.start depth db)
  · rw [hloaded] at h ⊢
    dsimp only at h ⊢
    cases hchangelogs : run.get_tracker_issues_changelog (run.tracker.pages (run.start depth db)).flatten with
    | none =>
      rw [hchangelogs] at h
      cases h
    | some changelogs =>
      rw [hchangelogs] at h
      refine ⟨rfl, changelogs, get_tracker_issues_changelog_eq_some hchangelogs, ?_, rfl⟩
      dsimp only at h
      split_ifs at h with hreturns
      exact hreturns
  · rw [hraised] at h
    cases h

/-- A run that returns has found no changelog, or has stored what it found in both tables. -/
theorem handler_ok (h : (handler depth run db).statusCode = some 200) :
    (handler depth run db).returned.Perm (run.found depth db) ∧
      ((∀ issue ∈ run.found depth db, run.tracker.fetched issue.key = []) ∧ (handler depth run db).db = db ∨
        (∃ issue ∈ run.found depth db, run.tracker.fetched issue.key ≠ []) ∧
          ∃ rows, shape_issue_changelog_data
              ((handler depth run db).returned.flatMap fun issue => run.tracker.fetched issue.key) = some rows ∧
            (handler depth run db).db =
              ⟨db.issues ++ shape_issues_data (handler depth run db).returned, db.changelog ++ rows⟩) := by
  obtain ⟨hreturned, changelogs, hchangelogs, hreturns, hdb⟩ := handler_eq_of_ok h
  have hperm : (handler depth run db).returned.Perm (run.found depth db) := by
    rw [hreturned]
    exact run.tracker.pages_exact (run.start depth db)
  refine ⟨hperm, ?_⟩
  have hempty : changelogs = [] ↔ ∀ issue ∈ run.found depth db, run.tracker.fetched issue.key = [] := by
    rw [hchangelogs, List.flatMap_eq_nil_iff]
    exact ⟨fun hall issue hissue => hall issue (hperm.mem_iff.mpr hissue),
      fun hall issue hissue => hall issue (hperm.mem_iff.mp hissue)⟩
  obtain ⟨hnil, hsame⟩ | ⟨hne, rows, hshape, hnew⟩ := upload_data_to_db_ok hreturns
  · exact .inl ⟨hempty.mp hnil, hdb.trans hsame⟩
  · rw [Ne, hempty] at hne
    push Not at hne
    exact .inr ⟨hne, rows, hchangelogs ▸ hshape, hdb.trans hnew⟩

end handler

/-- The tables, with all versions that Tracker returned so far. -/
structure State where
  db : Db
  versions : List Version

/-- The version in which a run gets an issue. -/
def Run.version (run : Run) (issue : Issue) : Version :=
  ⟨issue, run.tracker.entries issue.key⟩

def step (depth : Option String) (s : State) (run : Run) : State :=
  ⟨(handler depth run s.db).db, s.versions ++ (handler depth run s.db).returned.map run.version⟩

/-- If the run returns 200, every version returned to it or to an earlier run is stored after it. -/
def NothingLost (depth : Option String) (s : State) (run : Run) : Prop :=
  (handler depth run s.db).statusCode = some 200 →
    ∀ version ∈ (step depth s run).versions, (step depth s run).db.Stores version

/-- The query of the run finds the issue of a version, in this version or in a later one. -/
def Run.Finds (run : Run) (depth : Option String) (db : Db) (version : Version) : Prop :=
  ∃ issue ∈ run.found depth db, issue.id = version.issue.id ∧ version.issue.updatedAt ≤ issue.updatedAt

/-- A row of the changelogs that the run reads for the issues of its query. -/
def Run.Reads (run : Run) (depth : Option String) (db : Db) (row : ChangelogRow) : Prop :=
  ∃ issue ∈ run.found depth db, ∃ entry ∈ run.tracker.fetched issue.key, ∃ part, entryRows entry = some part ∧
    row ∈ part

/-- What the tables lack of a version is among what the run's query finds. -/
structure ReachesBack (depth : Option String) (s : State) (run : Run) (version : Version) : Prop where
  issue : s.db.UpToDate version.issue ∨ run.Finds depth s.db version
  entries : ∀ entry ∈ version.entries, ∃ rows, entryRows entry = some rows ∧
    ∀ row ∈ rows, row ∈ s.db.changelog ∨ run.Reads depth s.db row

/-- Some issue of the run's query has a changelog, or the table has rows as new as all of them. -/
def HasWorkflow (depth : Option String) (s : State) (run : Run) : Prop :=
  (∃ issue ∈ run.found depth s.db, run.tracker.fetched issue.key ≠ []) ∨
    ∀ issue ∈ run.found depth s.db, s.db.UpToDate issue

def Careful (depth : Option String) (s : State) (run : Run) : Prop :=
  (handler depth run s.db).statusCode = some 200 →
    (∀ version ∈ s.versions, ReachesBack depth s run version) ∧ HasWorkflow depth s run

section runs

variable {depth : Option String} {s : State} {run : Run} {version : Version}

/-- After a run that has uploaded both tables, the issues table has what it had and what the query found. -/
theorem upToDate_uploaded_iff {issues : List Issue} (hissues : issues.Perm (run.found depth s.db))
    (changelog : List ChangelogRow) :
    Db.UpToDate ⟨s.db.issues ++ shape_issues_data issues, changelog⟩ version.issue ↔
      s.db.UpToDate version.issue ∨ run.Finds depth s.db version := by
  constructor
  · rintro ⟨row, hrow, hid, hnew⟩
    obtain hrow | hrow := List.mem_append.mp hrow
    · exact .inl ⟨row, hrow, hid, hnew⟩
    · obtain ⟨issue, hissue, rfl⟩ := List.mem_map.mp hrow
      exact .inr ⟨issue, hissues.mem_iff.mp hissue, hid, hnew⟩
  · rintro (⟨row, hrow, hid, hnew⟩ | ⟨issue, hissue, hid, hnew⟩)
    · exact ⟨row, List.mem_append_left _ hrow, hid, hnew⟩
    · exact ⟨_, List.mem_append_right _ (List.mem_map_of_mem (hissues.mem_iff.mpr hissue)), hid, hnew⟩

/-- The rows that such a run adds to the changelog table are those that it has read. -/
theorem mem_rows_iff_reads {issues : List Issue} (hissues : issues.Perm (run.found depth s.db))
    {rows : List ChangelogRow}
    (hrows : shape_issue_changelog_data (issues.flatMap fun issue => run.tracker.fetched issue.key) = some rows)
    {row : ChangelogRow} : row ∈ rows ↔ run.Reads depth s.db row := by
  rw [mem_shape_issue_changelog_data hrows]
  constructor
  · rintro ⟨entry, hentry, part, hpart, hrow⟩
    obtain ⟨issue, hissue, hfetched⟩ := List.mem_flatMap.mp hentry
    exact ⟨issue, hissues.mem_iff.mp hissue, entry, hfetched, part, hpart, hrow⟩
  · rintro ⟨issue, hissue, entry, hentry, part, hpart, hrow⟩
    exact ⟨entry, List.mem_flatMap.mpr ⟨issue, hissues.mem_iff.mpr hissue, hentry⟩, part, hpart, hrow⟩

/-- After a run that has uploaded both tables, a version is stored if the run reached back to it. -/
theorem stores_uploaded_iff {issues : List Issue} (hissues : issues.Perm (run.found depth s.db))
    {rows : List ChangelogRow}
    (hrows : shape_issue_changelog_data (issues.flatMap fun issue => run.tracker.fetched issue.key) = some rows) :
    Db.Stores ⟨s.db.issues ++ shape_issues_data issues, s.db.changelog ++ rows⟩ version ↔
      ReachesBack depth s run version := by
  have hrow (row : ChangelogRow) : row ∈ s.db.changelog ++ rows ↔
      row ∈ s.db.changelog ∨ run.Reads depth s.db row := by
    rw [List.mem_append, mem_rows_iff_reads hissues hrows]
  have hentry (entry : Entry) : Db.Holds ⟨s.db.issues ++ shape_issues_data issues, s.db.changelog ++ rows⟩ entry ↔
      ∃ part, entryRows entry = some part ∧ ∀ row ∈ part, row ∈ s.db.changelog ∨ run.Reads depth s.db row := by
    simp only [Db.Holds, ← hrow]
    exact Iff.rfl
  rw [Db.Stores, upToDate_uploaded_iff hissues]
  simp only [hentry]
  exact ⟨fun ⟨hissue, hentries⟩ => ⟨hissue, hentries⟩, fun ⟨hissue, hentries⟩ => ⟨hissue, hentries⟩⟩

/-- A run reaches back to the versions that it finds itself. -/
theorem reachesBack_version {issue : Issue} (hissue : issue ∈ run.found depth s.db)
    (hentries : ∀ entry ∈ run.tracker.fetched issue.key, ∃ part, entryRows entry = some part) :
    ReachesBack depth s run (run.version issue) := by
  refine ⟨.inr ⟨issue, hissue, rfl, le_rfl⟩, fun entry hentry => ?_⟩
  have hfetched := run.tracker.entries_subset issue.key hentry
  obtain ⟨part, hpart⟩ := hentries entry hfetched
  exact ⟨part, hpart, fun row hrow => .inr ⟨issue, hissue, entry, hfetched, part, hpart, hrow⟩⟩

/-- Where no changelog is found, nothing is uploaded: the tables have to store all versions already. -/
theorem stores_of_no_changelog (hnone : ∀ issue ∈ run.found depth s.db, run.tracker.fetched issue.key = [])
    (hnew : ∀ issue ∈ run.found depth s.db, s.db.UpToDate issue) (hback : ReachesBack depth s run version) :
    s.db.Stores version := by
  refine ⟨?_, fun entry hentry => ?_⟩
  · obtain hold | ⟨issue, hissue, hid, hle⟩ := hback.issue
    · exact hold
    · obtain ⟨row, hrow, hrow_id, hrow_new⟩ := hnew issue hissue
      exact ⟨row, hrow, hrow_id.trans hid, hle.trans hrow_new⟩
  · obtain ⟨part, hpart, hrows⟩ := hback.entries entry hentry
    refine ⟨part, hpart, fun row hrow => (hrows row hrow).resolve_right ?_⟩
    rintro ⟨issue, hissue, other, hother, -⟩
    rw [hnone issue hissue] at hother
    exact absurd hother List.not_mem_nil

theorem Db.Stores.reachesBack (h : s.db.Stores version) : ReachesBack depth s run version where
  issue := .inl h.1
  entries entry hentry := by
    obtain ⟨rows, hrows, hsubset⟩ := h.2 entry hentry
    exact ⟨rows, hrows, fun row hrow => .inl (hsubset hrow)⟩

theorem nothingLost_iff_careful : NothingLost depth s run ↔ Careful depth s run := by
  refine imp_congr_right fun hok => ?_
  obtain ⟨hreturned, ⟨hnone, hdb⟩ | ⟨hsome, rows, hrows, hdb⟩⟩ := handler_ok hok
  · simp only [step, hdb, List.forall_mem_append, List.forall_mem_map]
    constructor
    · rintro ⟨hold, hnew⟩
      refine ⟨fun version hversion => (hold version hversion).reachesBack, .inr fun issue hissue => ?_⟩
      exact (hnew issue (hreturned.mem_iff.mpr hissue)).1
    · rintro ⟨hback, hworkflow⟩
      have hnew : ∀ issue ∈ run.found depth s.db, s.db.UpToDate issue := by
        apply hworkflow.resolve_left
        rintro ⟨issue, hissue, hne⟩
        exact hne (hnone issue hissue)
      refine ⟨fun version hversion => stores_of_no_changelog hnone hnew (hback version hversion),
        fun issue hissue => ?_⟩
      have hfound := hreturned.mem_iff.mp hissue
      refine stores_of_no_changelog hnone hnew (reachesBack_version hfound fun entry hentry => ?_)
      rw [hnone issue hfound] at hentry
      exact absurd hentry List.not_mem_nil
  · simp only [step, hdb, List.forall_mem_append, List.forall_mem_map]
    constructor
    · rintro ⟨hold, -⟩
      exact ⟨fun version hversion => (stores_uploaded_iff hreturned hrows).mp (hold version hversion), .inl hsome⟩
    · rintro ⟨hback, -⟩
      refine ⟨fun version hversion => (stores_uploaded_iff hreturned hrows).mpr (hback version hversion),
        fun issue hissue => (stores_uploaded_iff hreturned hrows).mpr ?_⟩
      refine reachesBack_version (hreturned.mem_iff.mp hissue) fun entry hentry => ?_
      exact isSome_entryRows hrows entry (List.mem_flatMap.mpr ⟨issue, hissue, hentry⟩)

/-- Tracker with one page for each answer. -/
def Tracker.ofWorkflow (issues : List Issue) (workflow : String → List Entry) : Tracker where
  issues
  entries := workflow
  ago _ := 0
  pages start := [issues.filter fun issue => start < issue.updatedAt]
  changelog key := (workflow key, [])
  scroll_id := "scroll"
  scroll_token := "token"
  pages_exact _ := by simp
  entries_subset _ := List.subset_append_left _ _

def answeredCalls : Calls := ⟨fun _ => true, true, fun _ => true, fun _ _ => true, .accepted, .accepted⟩

/-- An issue of 2023, with its summary. -/
def newIssue : Issue := ⟨"64", "ARCH-1", "Import", 1672531200000⟩

def newIssueRun : Run where
  tracker := .ofWorkflow [newIssue] fun _ => []
  calls := answeredCalls

end runs

end solution_library.tracker_import
