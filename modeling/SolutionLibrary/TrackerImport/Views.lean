import Mathlib.Data.List.Induction
import SolutionLibrary.Library.Replacing
import SolutionLibrary.TrackerImport.Watermark

namespace solution_library.tracker_import

open replacing

/-- The sorting key of the issues table, whose engine is `ReplacingMergeTree`. -/
def issueKey (row : IssueRow) : String :=
  row.id

/-- The sorting key of the changelog table. A display that is missing is written as an empty string. -/
def changelogKey (row : ChangelogRow) : String × String :=
  (row.id, row.field_display.getD "")

/-- What `v_issues` may show: it takes one row of each id, of the latest `updatedAt`. -/
def v_issues (issues view : List IssueRow) : Prop :=
  Shows issueKey IssueRow.updatedAt issues view

/-- What `v_changelog` may show. All rows have the organization of the function. -/
def v_changelog (changelog view : List ChangelogRow) : Prop :=
  Shows changelogKey ChangelogRow.updatedAt changelog view

/-- The tables after a sequence of runs, when the engine merges nothing. -/
def stored (depth : Option String) (runs : List Run) : Db :=
  runs.foldl (fun db run => (handler depth run db).db) ⟨[], []⟩

/-- The tables that a sequence of runs may leave, with merges of the engine between them. -/
inductive Stored (depth : Option String) : List Run → Db → Prop where
  | start : Stored depth [] ⟨[], []⟩
  | run {runs db} (run : Run) : Stored depth runs db → Stored depth (runs ++ [run]) (handler depth run db).db
  | merge_issues {runs db issues} : Stored depth runs db → Drop issueKey db.issues issues →
    Stored depth runs { db with issues }
  | merge_changelog {runs db changelog} : Stored depth runs db → Drop changelogKey db.changelog changelog →
    Stored depth runs { db with changelog }

/-- An issue keeps its id, and what is updated later is another version. -/
def Tracker.Follows (tracker later : Tracker) : Prop :=
  ∀ issue ∈ tracker.issues, ∀ other ∈ later.issues, other.id = issue.id →
    issue.updatedAt ≤ other.updatedAt ∧ (issue.updatedAt = other.updatedAt → issue = other)

/-- Every run meets the issues as they were or updated since the runs before. -/
structure IssuesFollow (runs : List Run) : Prop where
  same : ∀ run ∈ runs, run.tracker.Follows run.tracker
  later : runs.Pairwise fun run later => run.tracker.Follows later.tracker

/-- An entry that one of the runs may have read. -/
def Fetched (runs : List Run) (entry : Entry) : Prop :=
  ∃ run ∈ runs, ∃ key, entry ∈ run.tracker.fetched key

/-- An entry of a changelog stays as it is. -/
def EntriesStay (runs : List Run) : Prop :=
  ∀ entry other, Fetched runs entry → Fetched runs other → other.id = entry.id → other = entry

/-- The changes of an entry that are displayed under one name have the same row. -/
def Entry.Distinct (entry : Entry) : Prop :=
  ∀ rows, entryRows entry = some rows → ∀ row ∈ rows, ∀ other ∈ rows, changelogKey other = changelogKey row →
    other = row

def issueRow (issue : Issue) : IssueRow :=
  ⟨issue.id, issue.key, issue.summary, issue.updatedAt⟩

section appends

variable {depth : Option String} {run : Run} {runs : List Run} {db other : Db}

theorem shape_issues_data_eq (issues : List Issue) : shape_issues_data issues = issues.map issueRow :=
  rfl

/-- What a run adds to the tables: rows of issues that Tracker holds, and whole entries that it read. -/
structure Added (run : Run) (issues : List IssueRow) (changelog : List ChangelogRow) : Prop where
  issues : ∀ row ∈ issues, ∃ issue ∈ run.tracker.issues, row = issueRow issue
  changelog : ∀ row ∈ changelog, ∃ key, ∃ entry ∈ run.tracker.fetched key, ∃ part,
    entryRows entry = some part ∧ row ∈ part ∧ part ⊆ changelog

theorem Added.nil (run : Run) : Added run [] [] :=
  ⟨fun _ h => absurd h List.not_mem_nil, fun _ h => absurd h List.not_mem_nil⟩

/-- The uploads of a run add rows that do not depend on the tables. -/
theorem upload_data_to_db_appends {issues : List Issue} {entries : List Entry} (hissues : issues ⊆ run.tracker.issues)
    (hentries : ∀ entry ∈ entries, ∃ key, entry ∈ run.tracker.fetched key) :
    ∃ rows changelog, Added run rows changelog ∧ ∀ db : Db,
      (upload_data_to_db run.calls issues entries db).1 = ⟨db.issues ++ rows, db.changelog ++ changelog⟩ := by
  have hnone : ∀ db : Db, db = ⟨db.issues ++ [], db.changelog ++ []⟩ := fun db => by
    rw [List.append_nil, List.append_nil]
  by_cases hempty : entries = []
  · refine ⟨[], [], .nil run, fun db => ?_⟩
    rw [upload_data_to_db, if_pos hempty]
    exact hnone db
  cases hshape : shape_issue_changelog_data entries with
  | none =>
    refine ⟨[], [], .nil run, fun db => ?_⟩
    rw [upload_data_to_db, if_neg hempty, hshape]
    exact hnone db
  | some changelog =>
    by_cases hnil : issues = []
    · refine ⟨[], [], .nil run, fun db => ?_⟩
      simp only [upload_data_to_db, if_neg hempty, hshape, if_pos hnil]
      exact hnone db
    have hrows : ∀ row ∈ shape_issues_data issues, ∃ issue ∈ run.tracker.issues, row = issueRow issue := by
      intro row hrow
      obtain ⟨issue, hissue, rfl⟩ := List.mem_map.mp hrow
      exact ⟨issue, hissues hissue, rfl⟩
    have hchangelog : ∀ row ∈ changelog, ∃ key, ∃ entry ∈ run.tracker.fetched key, ∃ part,
        entryRows entry = some part ∧ row ∈ part ∧ part ⊆ changelog := by
      intro row hrow
      obtain ⟨entry, hentry, part, hpart, hmem⟩ := (mem_shape_issue_changelog_data hshape).mp hrow
      obtain ⟨key, hkey⟩ := hentries entry hentry
      refine ⟨key, entry, hkey, part, hpart, hmem, fun other hother => ?_⟩
      exact (mem_shape_issue_changelog_data hshape).mpr ⟨entry, hentry, part, hpart, hother⟩
    have hstep (db : Db) : (upload_data_to_db run.calls issues entries db).1 =
        ⟨upload_clickhouse_data run.calls.upload_issues (shape_issues_data issues) db.issues,
          if run.calls.upload_issues.answers then
            upload_clickhouse_data run.calls.upload_changelog changelog db.changelog
          else db.changelog⟩ := by
      simp only [upload_data_to_db, if_neg hempty, hshape, if_neg hnil]
      cases run.calls.upload_issues.answers with
      | true => rfl
      | false => rfl
    simp only [hstep, upload_clickhouse_data]
    cases hanswers : run.calls.upload_issues.answers with
    | true =>
      rw [Upload.stores_of_answers hanswers]
      cases run.calls.upload_changelog.stores with
      | true => exact ⟨_, changelog, ⟨hrows, hchangelog⟩, fun db => rfl⟩
      | false => exact ⟨_, [], ⟨hrows, (Added.nil run).changelog⟩, fun db => by rw [List.append_nil]; rfl⟩
    | false =>
      cases run.calls.upload_issues.stores with
      | true => exact ⟨_, [], ⟨hrows, (Added.nil run).changelog⟩, fun db => by rw [List.append_nil]; rfl⟩
      | false => exact ⟨[], [], .nil run, fun db => hnone db⟩

/-- A run depends on the tables only by the time after which it searches, and only adds to them. -/
theorem handler_appends (depth : Option String) (run : Run) (db : Db) :
    ∃ rows changelog, Added run rows changelog ∧ ∀ other : Db, run.start depth other = run.start depth db →
      (handler depth run other).db = ⟨other.issues ++ rows, other.changelog ++ changelog⟩ := by
  have hnone : ∀ other : Db, other = ⟨other.issues ++ [], other.changelog ++ []⟩ := fun other => by
    rw [List.append_nil, List.append_nil]
  simp only [handler]
  split_ifs with hinit
  · obtain hloaded | ⟨n, hraised⟩ := get_tracker_issues_cases run (run.start depth db)
    · cases hchangelogs : run.get_tracker_issues_changelog (run.tracker.pages (run.start depth db)).flatten with
      | none =>
        refine ⟨[], [], .nil run, fun other hstart => ?_⟩
        rw [hstart, hloaded]
        dsimp only
        rw [hchangelogs]
        exact hnone other
      | some entries =>
        have hissues : (run.tracker.pages (run.start depth db)).flatten ⊆ run.tracker.issues := fun issue hissue =>
          (Tracker.mem_updated.mp ((run.tracker.pages_exact (run.start depth db)).subset hissue)).1
        have hentries : ∀ entry ∈ entries, ∃ key, entry ∈ run.tracker.fetched key := by
          intro entry hentry
          rw [get_tracker_issues_changelog_eq_some hchangelogs] at hentry
          obtain ⟨issue, _, hentry⟩ := List.mem_flatMap.mp hentry
          exact ⟨issue.key, hentry⟩
        obtain ⟨rows, changelog, hadded, hdb⟩ := upload_data_to_db_appends hissues hentries
        refine ⟨rows, changelog, hadded, fun other hstart => ?_⟩
        rw [hstart, hloaded]
        dsimp only
        rw [hchangelogs]
        exact hdb other
    · refine ⟨[], [], .nil run, fun other hstart => ?_⟩
      rw [hstart, hraised]
      exact hnone other
  · exact ⟨[], [], .nil run, fun other _ => hnone other⟩

end appends

section merges

variable {depth : Option String} {run : Run} {runs : List Run} {db : Db} {rows kept : List IssueRow}

theorem stored_concat (depth : Option String) (runs : List Run) (run : Run) :
    stored depth (runs ++ [run]) = (handler depth run (stored depth runs)).db :=
  List.foldl_concat _ _ _ _

/-- A merge of rows in order leaves the greatest `updatedAt`. -/
theorem maxUpdatedAt_of_merge (hordered : Ordered issueKey IssueRow.updatedAt rows)
    (hmerge : Merge issueKey rows kept) : maxUpdatedAt kept = maxUpdatedAt rows := by
  rw [maxUpdatedAt, maxUpdatedAt]
  cases hmax : (rows.map IssueRow.updatedAt).max? with
  | none =>
    rw [List.max?_eq_none_iff, List.map_eq_nil_iff] at hmax
    subst hmax
    rw [List.sublist_nil.mp hmerge.sublist]
    rfl
  | some greatest =>
    obtain ⟨hmem, hle⟩ := List.max?_eq_some_iff.mp hmax
    obtain ⟨row, hrow, rfl⟩ := List.mem_map.mp hmem
    obtain ⟨other, hother, -, hnewer⟩ := hordered.exists_of_merge hmerge hrow
    have hother_le := hle _ (List.mem_map_of_mem (hmerge.sublist.subset hother))
    have hkept : (kept.map IssueRow.updatedAt).max? = some row.updatedAt := by
      refine List.max?_eq_some_iff.mpr ⟨?_, fun time htime => ?_⟩
      · exact List.mem_map.mpr ⟨other, hother, le_antisymm hother_le hnewer⟩
      · exact hle time (List.map_subset IssueRow.updatedAt hmerge.sublist.subset htime)
    rw [hkept]

theorem IssuesFollow.init (h : IssuesFollow (runs ++ [run])) :
    IssuesFollow runs ∧ run.tracker.Follows run.tracker ∧ ∀ earlier ∈ runs, earlier.tracker.Follows run.tracker := by
  obtain ⟨hruns, -, hlast⟩ := List.pairwise_append.mp h.later
  refine ⟨⟨fun earlier hmem => h.same earlier (List.mem_append_left _ hmem), hruns⟩, ?_, fun earlier hmem => ?_⟩
  · exact h.same run (List.mem_append_right _ List.mem_cons_self)
  · exact hlast earlier hmem run List.mem_cons_self

/-- The rows of issues are those of the trackers. -/
theorem mem_stored_issues {row : IssueRow} (h : row ∈ (stored depth runs).issues) :
    ∃ run ∈ runs, ∃ issue ∈ run.tracker.issues, row = issueRow issue := by
  induction runs using List.reverseRecOn with
  | nil => exact absurd h List.not_mem_nil
  | append_singleton runs run ih =>
    obtain ⟨rows, changelog, hadded, hdb⟩ := handler_appends depth run (stored depth runs)
    rw [stored_concat, hdb _ rfl] at h
    obtain hold | hnew := List.mem_append.mp h
    · obtain ⟨earlier, hearlier, hissue⟩ := ih hold
      exact ⟨earlier, List.mem_append_left _ hearlier, hissue⟩
    · exact ⟨run, List.mem_append_right _ List.mem_cons_self, hadded.issues row hnew⟩

/-- The rows of the changelog are those of whole entries. -/
theorem mem_stored_changelog {row : ChangelogRow} (h : row ∈ (stored depth runs).changelog) :
    ∃ entry, Fetched runs entry ∧ ∃ part, entryRows entry = some part ∧ row ∈ part ∧
      part ⊆ (stored depth runs).changelog := by
  induction runs using List.reverseRecOn with
  | nil => exact absurd h List.not_mem_nil
  | append_singleton runs run ih =>
    obtain ⟨rows, changelog, hadded, hdb⟩ := handler_appends depth run (stored depth runs)
    rw [stored_concat, hdb _ rfl] at h ⊢
    obtain hold | hnew := List.mem_append.mp h
    · obtain ⟨entry, ⟨earlier, hearlier, hfetched⟩, part, hpart, hmem, hsubset⟩ := ih hold
      exact ⟨entry, ⟨earlier, List.mem_append_left _ hearlier, hfetched⟩, part, hpart, hmem,
        List.subset_append_of_subset_left _ hsubset⟩
    · obtain ⟨key, entry, hentry, part, hpart, hmem, hsubset⟩ := hadded.changelog row hnew
      exact ⟨entry, ⟨run, List.mem_append_right _ List.mem_cons_self, key, hentry⟩, part, hpart, hmem,
        List.subset_append_of_subset_right _ hsubset⟩

/-- The versions of an issue are stored in their order. -/
theorem ordered_stored (h : IssuesFollow runs) : Ordered issueKey IssueRow.updatedAt (stored depth runs).issues := by
  induction runs using List.reverseRecOn with
  | nil => exact List.Pairwise.nil
  | append_singleton runs run ih =>
    obtain ⟨hruns, hsame, hlater⟩ := h.init
    obtain ⟨rows, changelog, hadded, hdb⟩ := handler_appends depth run (stored depth runs)
    have hnewer {earlier : Run} (hfollows : earlier.tracker.Follows run.tracker) :
        ∀ issue ∈ earlier.tracker.issues, ∀ later ∈ rows, issueKey later = issueKey (issueRow issue) →
          (issueRow issue).updatedAt ≤ later.updatedAt ∧
            ((issueRow issue).updatedAt = later.updatedAt → issueRow issue = later) := by
      intro issue hissue later hmem hkey
      obtain ⟨other, hother, rfl⟩ := hadded.issues later hmem
      obtain ⟨hle, heq⟩ := hfollows issue hissue other hother hkey
      exact ⟨hle, fun htime => congrArg issueRow (heq htime)⟩
    rw [stored_concat, hdb _ rfl]
    refine List.pairwise_append.mpr ⟨ih hruns, ?_, fun row hrow => ?_⟩
    · have hall : rows.Pairwise fun _ _ => True := List.pairwise_of_forall fun _ _ => trivial
      refine hall.imp_of_mem fun {row later} hrow hmem _ hkey => ?_
      obtain ⟨issue, hissue, rfl⟩ := hadded.issues row hrow
      exact hnewer hsame issue hissue later hmem hkey
    · obtain ⟨earlier, hearlier, issue, hissue, rfl⟩ := mem_stored_issues hrow
      exact hnewer (hlater earlier hearlier) issue hissue

/-- Whatever the engine merges, the runs ask Tracker the same, and leave a merge of what they leave without. -/
theorem Stored.merge (h : Stored depth runs db) (hfollow : IssuesFollow runs) :
    Merge issueKey (stored depth runs).issues db.issues ∧
      Merge changelogKey (stored depth runs).changelog db.changelog := by
  induction h with
  | start => exact ⟨.refl, .refl⟩
  | @run runs db run hstored ih =>
    obtain ⟨hruns, -, -⟩ := hfollow.init
    obtain ⟨hissues, hchangelog⟩ := ih hruns
    obtain ⟨rows, changelog, -, hdb⟩ := handler_appends depth run (stored depth runs)
    have hstart : run.start depth db = run.start depth (stored depth runs) := by
      simp only [Run.start, get_issues_query_text, maxUpdatedAt_of_merge (ordered_stored hruns) hissues]
    rw [stored_concat, hdb _ rfl, hdb db hstart]
    exact ⟨hissues.append rows, hchangelog.append changelog⟩
  | merge_issues _ hdrop ih => exact ⟨(ih hfollow).1.tail hdrop, (ih hfollow).2⟩
  | merge_changelog _ hdrop ih => exact ⟨(ih hfollow).1, (ih hfollow).2.tail hdrop⟩

/-- After a run that has uploaded its issues, a view shows the row that the run has made of each. -/
theorem mem_view_of_found {earlier : List Run} (hfollow : IssuesFollow (earlier ++ [run]))
    (hok : (handler depth run (stored depth earlier)).statusCode = some 200)
    (hworkflow : ∃ issue ∈ run.found depth (stored depth earlier), run.tracker.fetched issue.key ≠ [])
    {view : List IssueRow} (hview : v_issues (stored depth (earlier ++ [run])).issues view) {issue : Issue}
    (hissue : issue ∈ run.found depth (stored depth earlier)) : issueRow issue ∈ view := by
  obtain ⟨-, hsame, hlater⟩ := hfollow.init
  obtain ⟨hreturned, ⟨hnone, -⟩ | ⟨-, rows, -, hdb⟩⟩ := handler_ok hok
  · obtain ⟨other, hother, hne⟩ := hworkflow
    exact absurd (hnone other hother) hne
  · have hrow : issueRow issue ∈ (stored depth (earlier ++ [run])).issues := by
      rw [stored_concat, hdb]
      exact List.mem_append_right _ (List.mem_map_of_mem (hreturned.mem_iff.mpr hissue))
    obtain ⟨shown, hshown, hkey⟩ := hview.shown _ hrow
    have hle := hview.greatest shown hshown _ hrow hkey.symm
    have htracker := (Tracker.mem_updated.mp hissue).1
    obtain ⟨before, hbefore, other, hother, rfl⟩ := mem_stored_issues (hview.mem shown hshown)
    have hfollows : before.tracker.Follows run.tracker := by
      obtain hbefore | hbefore := List.mem_append.mp hbefore
      · exact hlater before hbefore
      · rw [List.mem_singleton.mp hbefore]
        exact hsame
    obtain ⟨hge, heq⟩ := hfollows other hother issue htracker hkey.symm
    rw [← heq (le_antisymm hge hle)]
    exact hshown

end merges

/-- Whatever the engine merges between the runs, `v_issues` shows what it shows without merges, and after a run that has
uploaded its issues it shows each of them with the key and the time of its update that the run found. The texts are
another matter: the encoding of the upload may alter them. -/
theorem v_issues_of_merges (depth : Option String) (runs : List Run) (hfollow : IssuesFollow runs) {db : Db}
    (h : Stored depth runs db) :
    (∀ view, v_issues db.issues view ↔ v_issues (stored depth runs).issues view) ∧
      ∀ earlier run, runs = earlier ++ [run] → (handler depth run (stored depth earlier)).statusCode = some 200 →
        (∃ issue ∈ run.found depth (stored depth earlier), run.tracker.fetched issue.key ≠ []) →
          ∀ view, v_issues db.issues view → ∀ issue ∈ run.found depth (stored depth earlier),
            ∃ row ∈ view, row.id = issue.id ∧ row.key = issue.key ∧ row.updatedAt = issue.updatedAt := by
  have hviews (view : List IssueRow) : v_issues db.issues view ↔ v_issues (stored depth runs).issues view :=
    (ordered_stored hfollow).shows_iff_of_merge (h.merge hfollow).1
  refine ⟨hviews, ?_⟩
  rintro earlier run rfl hok hworkflow view hview issue hissue
  have hshown := mem_view_of_found hfollow hok hworkflow ((hviews view).mp hview) hissue
  exact ⟨issueRow issue, hshown, rfl, rfl, rfl⟩

section updated

/-- The first move of the issue through the workflow. -/
def firstMove : Entry :=
  ⟨"1", "ARCH-1", 1672531200000, "Ann", "IssueWorkflow", [⟨"status", some "Status", some ⟨some "Open", "open"⟩, none⟩]⟩

def movedTracker : Tracker :=
  .ofWorkflow [newIssue] fun key => if key = "ARCH-1" then [firstMove] else []

/-- The issue after a change of its summary. -/
def updatedIssue : Issue := { newIssue with summary := "Import of issues", updatedAt := newIssue.updatedAt + 60000 }

def updatedTracker : Tracker :=
  .ofWorkflow [updatedIssue] movedTracker.entries

def updatedRuns : List Run :=
  [⟨movedTracker, answeredCalls⟩, ⟨updatedTracker, answeredCalls⟩]

theorem issuesFollow_updatedRuns : IssuesFollow updatedRuns := by
  have hfollows {issue other : Issue} (hle : issue.updatedAt ≤ other.updatedAt)
      (heq : issue.updatedAt = other.updatedAt → issue = other) :
      ∀ a ∈ [issue], ∀ b ∈ [other], b.id = a.id → a.updatedAt ≤ b.updatedAt ∧ (a.updatedAt = b.updatedAt → a = b) := by
    intro a ha b hb _
    rw [List.mem_singleton.mp ha, List.mem_singleton.mp hb]
    exact ⟨hle, heq⟩
  constructor
  · refine List.forall_mem_cons.mpr ⟨hfollows le_rfl fun _ => rfl, List.forall_mem_singleton.mpr ?_⟩
    exact hfollows le_rfl fun _ => rfl
  · exact List.pairwise_pair.mpr (hfollows (by decide) fun h => absurd h (by decide))

/-- The engine has dropped the first version. -/
theorem v_issues_of_merges_updated : ∃ db, Stored none updatedRuns db ∧ db.issues = [issueRow updatedIssue] ∧
    ∀ view, v_issues db.issues view ↔ v_issues (stored none updatedRuns).issues view := by
  have hissues : (stored none updatedRuns).issues = [issueRow newIssue, issueRow updatedIssue] := by decide +kernel
  have hstored : Stored none updatedRuns (stored none updatedRuns) := .run _ (.run _ .start)
  have hdrop : Drop issueKey (stored none updatedRuns).issues [issueRow updatedIssue] := by
    rw [hissues]
    exact .drop [] (issueRow newIssue) [issueRow updatedIssue] List.mem_cons_self rfl
  exact ⟨_, hstored.merge_issues hdrop, rfl,
    (v_issues_of_merges none updatedRuns issuesFollow_updatedRuns (hstored.merge_issues hdrop)).1⟩

end updated

/-- An entry that the runs have uploaded. -/
def Uploaded (depth : Option String) (runs : List Run) (entry : Entry) : Prop :=
  Fetched runs entry ∧ (stored depth runs).Holds entry

section changelog

variable {depth : Option String} {runs : List Run} {db : Db} {entry : Entry} {rows : List ChangelogRow}

theorem id_of_mem_entryRows (h : entryRows entry = some rows) {row : ChangelogRow} (hrow : row ∈ rows) :
    row.id = entry.id := by
  rw [entryRows] at h
  split_ifs at h
  rw [← Option.some.inj h] at hrow
  obtain ⟨change, -, rfl⟩ := List.mem_map.mp hrow
  rfl

/-- Where the entries are distinct, the key of a stored row determines it. -/
theorem eq_of_changelogKey_eq (hstay : EntriesStay runs)
    (hdistinct : ∀ entry, Uploaded depth runs entry → entry.Distinct)
    {row other : ChangelogRow} (hrow : row ∈ (stored depth runs).changelog)
    (hother : other ∈ (stored depth runs).changelog) (hkey : changelogKey other = changelogKey row) : other = row := by
  obtain ⟨entry, hfetched, part, hpart, hmem, hsubset⟩ := mem_stored_changelog hrow
  obtain ⟨same, hsame_fetched, otherPart, hotherPart, hother_mem, -⟩ := mem_stored_changelog hother
  have hid : same.id = entry.id := by
    rw [← id_of_mem_entryRows hpart hmem, ← id_of_mem_entryRows hotherPart hother_mem]
    exact congrArg Prod.fst hkey
  obtain rfl := hstay entry same hfetched hsame_fetched hid
  obtain rfl := Option.some.inj (hpart.symm.trans hotherPart)
  exact hdistinct same ⟨hfetched, part, hpart, hsubset⟩ part hpart row hmem other hother_mem hkey

end changelog

/-- Whatever the engine merges between the runs, `v_changelog` shows all changes of all uploaded entries exactly if no
entry displays two different changes under one name. -/
theorem v_changelog_shows_iff (depth : Option String) (runs : List Run) (hfollow : IssuesFollow runs)
    (hstay : EntriesStay runs) {db : Db} (h : Stored depth runs db) :
    (∀ view, v_changelog db.changelog view → ∀ entry, Uploaded depth runs entry → ∀ rows,
      entryRows entry = some rows → rows ⊆ view) ↔ ∀ entry, Uploaded depth runs entry → entry.Distinct := by
  have hmerge := (h.merge hfollow).2
  constructor
  · intro hshows entry huploaded rows hrows row hrow other hother hkey
    have hview : v_changelog db.changelog (latest changelogKey ChangelogRow.updatedAt db.changelog) := latest_shows _
    have hsubset := hshows _ hview entry huploaded rows hrows
    exact List.inj_on_of_nodup_map hview.nodup (hsubset hother) (hsubset hrow) hkey
  · rintro hdistinct view hview entry ⟨hfetched, part, hpart, hsubset⟩ rows hrows row hrow
    obtain rfl := Option.some.inj (hpart.symm.trans hrows)
    have hkey : ∀ row ∈ (stored depth runs).changelog, ∀ other ∈ (stored depth runs).changelog,
        changelogKey other = changelogKey row → other = row :=
      fun _ hrow _ hother => eq_of_changelogKey_eq hstay hdistinct hrow hother
    have hkept := subset_of_merge hmerge hkey (hsubset hrow)
    obtain ⟨shown, hshown, hshown_key⟩ := hview.shown row hkept
    have hstored := hmerge.sublist.subset (hview.mem shown hshown)
    exact hkey row (hsubset hrow) shown hstored hshown_key ▸ hshown

theorem eq_firstMove_of_fetched {entry : Entry} (h : Fetched updatedRuns entry) : entry = firstMove := by
  obtain ⟨run, hrun, key, hentry⟩ := h
  have hworkflow : run.tracker.fetched key = if key = "ARCH-1" then [firstMove] else [] := by
    obtain rfl | hrun := List.mem_cons.mp hrun
    · exact List.append_nil _
    · rw [List.mem_singleton.mp hrun]
      exact List.append_nil _
  rw [hworkflow] at hentry
  split_ifs at hentry
  · exact List.mem_singleton.mp hentry
  · exact absurd hentry List.not_mem_nil

/-- The row that both runs have uploaded. -/
theorem v_changelog_shows_firstMove : ∃ db, Stored none updatedRuns db ∧ db.changelog.length = 1 ∧
    ∀ view, v_changelog db.changelog view → ∀ rows, entryRows firstMove = some rows → rows ⊆ view := by
  have hstored : Stored none updatedRuns (stored none updatedRuns) := .run _ (.run _ .start)
  have hrows : ∃ row, entryRows firstMove = some [row] ∧ (stored none updatedRuns).changelog = [row, row] :=
    ⟨⟨"1", "ARCH-1", 1672531200000, "Ann", "IssueWorkflow", some "Status", "Open", ""⟩, rfl, by decide +kernel⟩
  obtain ⟨row, hfirst, hchangelog⟩ := hrows
  have hdrop : Drop changelogKey (stored none updatedRuns).changelog [row] := by
    rw [hchangelog]
    exact .drop [] row [row] List.mem_cons_self rfl
  have hstay : EntriesStay updatedRuns := fun entry other hentry hother _ => by
    rw [eq_firstMove_of_fetched hentry, eq_firstMove_of_fetched hother]
  have huploaded : Uploaded none updatedRuns firstMove := by
    refine ⟨⟨_, List.mem_cons_self, "ARCH-1", List.mem_cons_self⟩, _, hfirst, ?_⟩
    rw [hchangelog]
    exact List.cons_subset.mpr ⟨List.mem_cons_self, List.nil_subset _⟩
  have hmerged := hstored.merge_changelog hdrop
  have hdistinct : ∀ entry, Uploaded none updatedRuns entry → entry.Distinct := by
    intro entry hentry rows hrows a ha b hb _
    rw [eq_firstMove_of_fetched hentry.1] at hrows
    obtain rfl := Option.some.inj (hfirst.symm.trans hrows)
    rw [List.mem_singleton.mp ha, List.mem_singleton.mp hb]
  have hshows := (v_changelog_shows_iff none updatedRuns issuesFollow_updatedRuns hstay hmerged).mpr hdistinct
  exact ⟨_, hmerged, rfl, fun view hview => hshows view hview firstMove huploaded⟩

end solution_library.tracker_import
