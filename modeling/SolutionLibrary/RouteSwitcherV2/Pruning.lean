import SolutionLibrary.RouteSwitcherV2.Forgetting

namespace solution_library.route_switcher_v2

/-- The stored prefixes that no managed route has, which are to be pruned. -/
def stale (hops : NextHops) (routes : Option Routes) (routeTable : List StaticRoute) : Finset String :=
  stored_prefixes routes \ managed hops routeTable

/-- The managed prefixes without a primary after the loop: none is stored, and all
their routes are on unhealthy next hops. -/
def missing (hops : NextHops) (routes : Option Routes) (routeTable : List StaticRoute) : Finset String :=
  managed hops routeTable \ (stored_prefixes routes ∪ healthy_prefixes hops routeTable)

/-- A pass over the table has a primary to record or a prefix to prune. -/
def Outdated (hops : NextHops) (routes : Option Routes) (routeTable : List StaticRoute) : Prop :=
  ¬ healthy_prefixes hops routeTable ⊆ stored_prefixes routes ∨ stale hops routes routeTable ≠ ∅

section pass

variable {back_to_primary : Bool} {hops : NextHops} {routes : Option Routes} {routeTable : List StaticRoute}

theorem healthy_prefixes_subset_managed : healthy_prefixes hops routeTable ⊆ managed hops routeTable := by
  intro destinationPrefix hmem
  obtain ⟨route, hroute, rfl, hrec⟩ := mem_healthy_prefixes.mp hmem
  obtain ⟨address, hrec⟩ := Option.ne_none_iff_exists'.mp hrec
  exact mem_managed_of_recordable hroute hrec

theorem managed_subset_prefixes : managed hops routeTable ⊆ (prefixes routeTable).toFinset := by
  intro destinationPrefix hmem
  obtain ⟨route, hroute, rfl, _⟩ := mem_managed.mp hmem
  exact List.mem_toFinset.mpr (List.mem_map_of_mem hroute)

theorem record_eq_self_iff_subset : record hops routes routeTable = routes ↔
    healthy_prefixes hops routeTable ⊆ stored_prefixes routes := by
  rw [record_eq_self_iff]
  constructor
  · intro h destinationPrefix hmem
    obtain ⟨route, hroute, rfl, hrec⟩ := mem_healthy_prefixes.mp hmem
    exact mem_stored_prefixes.mpr ((h route hroute).resolve_left hrec)
  · intro h route hroute
    by_cases hrec : recordable hops route = none
    · exact Or.inl hrec
    · exact Or.inr (mem_stored_prefixes.mp (h (mem_healthy_prefixes.mpr ⟨route, hroute, rfl, hrec⟩)))

/-- What the loop stores without need is what was stale before it. -/
theorem recorded_sdiff_managed :
    stored_prefixes (record hops routes routeTable) \ managed hops routeTable = stale hops routes routeTable := by
  rw [stored_prefixes_record, Finset.union_sdiff_distrib,
    Finset.sdiff_eq_empty_iff_subset.mpr healthy_prefixes_subset_managed, Finset.union_empty, stale]

theorem managed_sdiff_recorded :
    managed hops routeTable \ stored_prefixes (record hops routes routeTable) = missing hops routes routeTable := by
  rw [stored_prefixes_record, missing]

/-- The comparison of the sizes counts what is stale against what is missing. -/
theorem card_recorded_eq_iff :
    (stored_prefixes (record hops routes routeTable)).card = (managed hops routeTable).card ↔
      (stale hops routes routeTable).card = (missing hops routes routeTable).card := by
  rw [← Finset.card_sdiff_eq_card_sdiff_iff, recorded_sdiff_managed, managed_sdiff_recorded]

theorem recorded_eq_managed_iff : stored_prefixes (record hops routes routeTable) = managed hops routeTable ↔
    stale hops routes routeTable = ∅ ∧ missing hops routes routeTable = ∅ := by
  rw [← recorded_sdiff_managed, ← managed_sdiff_recorded, Finset.sdiff_eq_empty_iff_subset,
    Finset.sdiff_eq_empty_iff_subset, Finset.Subset.antisymm_iff]

/-- The two comparisons agree unless as many prefixes are stale as are missing. -/
theorem sizes_decide_iff :
    ((stored_prefixes (record hops routes routeTable)).card ≠ (managed hops routeTable).card ↔
        stored_prefixes (record hops routes routeTable) ≠ managed hops routeTable) ↔
      ((stale hops routes routeTable).card = (missing hops routes routeTable).card →
        stale hops routes routeTable = ∅) := by
  rw [not_iff_not, card_recorded_eq_iff, recorded_eq_managed_iff]
  constructor
  · exact fun h hcard => (h.mp hcard).1
  · refine fun h => ⟨fun hcard => ?_, fun hboth => by rw [hboth.1, hboth.2]⟩
    have hstale := h hcard
    rw [hstale, Finset.card_empty, eq_comm, Finset.card_eq_zero] at hcard
    exact ⟨hstale, hcard⟩

/-- A pass prunes what is stale, but nothing when as much is missing. -/
theorem kept_eq_self_iff : kept hops routes routeTable = routes ↔
    healthy_prefixes hops routeTable ⊆ stored_prefixes routes ∧
      ((stale hops routes routeTable).card = (missing hops routes routeTable).card ∨
        stale hops routes routeTable = ∅) := by
  rw [← card_recorded_eq_iff, ← record_eq_self_iff_subset, stale, Finset.sdiff_eq_empty_iff_subset]
  constructor
  · intro h
    have hrecord := record_eq_self_of_kept h
    rw [hrecord]
    exact ⟨rfl, (kept_eq_self_iff_of_record hrecord).mp h⟩
  · rintro ⟨hrecord, hpruned⟩
    rw [hrecord] at hpruned
    exact (kept_eq_self_iff_of_record hrecord).mpr hpruned

/-- When the sizes tell, a pass leaves managed prefixes only. -/
theorem stored_prefixes_kept_subset (hstale : (stale hops routes routeTable).card =
    (missing hops routes routeTable).card → stale hops routes routeTable = ∅) :
    stored_prefixes (kept hops routes routeTable) ⊆ managed hops routeTable := by
  intro destinationPrefix hmem
  by_contra hmanaged
  rw [mem_stored_prefixes, primary_kept] at hmem
  by_cases hcard : (stored_prefixes (record hops routes routeTable)).card = (managed hops routeTable).card
  · rw [if_neg fun hpruned => hpruned.1 hcard, ← mem_stored_prefixes] at hmem
    have hnone : stored_prefixes (record hops routes routeTable) \ managed hops routeTable = ∅ :=
      recorded_sdiff_managed.trans (hstale (card_recorded_eq_iff.mp hcard))
    exact hmanaged (Finset.sdiff_eq_empty_iff_subset.mp hnone hmem)
  · rw [if_pos ⟨hcard, hmanaged⟩] at hmem
    exact hmem rfl

/-- The comparison of the sizes as `config_changed` sees it. -/
theorem CheckedTable.read_config_changed_iff {entry : ConfigRouteTable} :
    (CheckedTable.read back_to_primary hops entry routeTable).config_changed = true ↔
      ¬ healthy_prefixes hops routeTable ⊆ stored_prefixes entry.routes ∨
        entry.routes ≠ none ∧
          (stale hops entry.routes routeTable).card ≠ (missing hops entry.routes routeTable).card := by
  rw [← record_eq_self_iff_subset, ne_eq (Finset.card _), ← card_recorded_eq_iff, CheckedTable.read, Bool.or_eq_true,
    decide_eq_true_eq]
  by_cases hrecord : record hops entry.routes routeTable = entry.routes
  · rw [hrecord]
    cases entry.routes <;> simp [stored_prefixes]
  · simp [hrecord]

end pass

/-- The invocation reads the table of the entry at a position: its GET succeeds, and
no earlier answer makes the invocation raise. -/
structure Calls.Reads (hops : NextHops) (cloud : Cloud) (calls : Calls) (i : ℕ) (entry : ConfigRouteTable) : Prop
    extends Calls.Reaches hops cloud calls where
  entry_eq : cloud.entry i = some entry
  earlier : ∀ j < i, ∀ other, cloud.entry j = some other → ¬ calls.RaisesAt cloud j other
  routeTables : calls.routeTables i = .ok ()

/-- Some non-empty table that is read has a primary to record or a prefix to prune. -/
def Calls.FindsOutdated (hops : NextHops) (cloud : Cloud) (calls : Calls) : Prop :=
  ∃ i entry, calls.Reads hops cloud i entry ∧ cloud.tables entry.route_table_id ≠ [] ∧
    Outdated hops entry.routes (cloud.tables entry.route_table_id)

/-- Some non-empty table that is read, and has a stored dictionary, misses a prefix. -/
def Calls.FindsMissing (hops : NextHops) (cloud : Cloud) (calls : Calls) : Prop :=
  ∃ i entry, calls.Reads hops cloud i entry ∧ cloud.tables entry.route_table_id ≠ [] ∧ entry.routes ≠ none ∧
    missing hops entry.routes (cloud.tables entry.route_table_id) ≠ ∅

/-- What pruning by size is to achieve in one invocation, whatever its outcomes:
after it every prefix that is stored for a table that it has read occurs in the
table, `put_config` is called exactly if the stored contents have changed, and in
every table that it inspects to the end the sizes differ exactly when the sets
do. -/
structure Pruned (back_to_primary : Bool) (cloud : Cloud) (calls : Calls) : Prop where
  stored : ∀ hops i entry stored, calls.Reads hops cloud i entry →
    (tick back_to_primary cloud calls).entry i = some stored →
      stored_prefixes stored.routes ⊆ (prefixes (cloud.tables entry.route_table_id)).toFinset
  put_config : (handler back_to_primary cloud calls).put_config ≠ none ↔
    (tick back_to_primary cloud calls).config ≠ cloud.config
  sizes : ∀ hops i entry, calls.Reads hops cloud i entry → Readable (cloud.tables entry.route_table_id) →
    ((stored_prefixes (record hops entry.routes (cloud.tables entry.route_table_id))).card ≠
        (managed hops (cloud.tables entry.route_table_id)).card ↔
      stored_prefixes (record hops entry.routes (cloud.tables entry.route_table_id)) ≠
        managed hops (cloud.tables entry.route_table_id))

/-- The sizes tell what the sets would, and the outcomes let the invocation store
it: nothing is stored for an empty table; a table has not as many stale prefixes as
missing ones unless it has none; in an invocation that completes, prefixes are
missing only when some table is outdated anyway, and the upload succeeds when one
is; in one that raises, what is stored for the tables that it has read occurs in
them already. -/
structure SizesTell (cloud : Cloud) (calls : Calls) : Prop where
  empty : ∀ hops i entry, calls.Reads hops cloud i entry → cloud.tables entry.route_table_id = [] →
    stored_prefixes entry.routes = ∅
  stale : ∀ hops i entry, calls.Reads hops cloud i entry → Readable (cloud.tables entry.route_table_id) →
    (stale hops entry.routes (cloud.tables entry.route_table_id)).card =
        (missing hops entry.routes (cloud.tables entry.route_table_id)).card →
      stale hops entry.routes (cloud.tables entry.route_table_id) = ∅
  missing : ∀ hops, calls.Completes hops cloud → calls.FindsMissing hops cloud → calls.FindsOutdated hops cloud
  upload : ∀ hops, calls.Completes hops cloud → calls.FindsOutdated hops cloud → calls.put_config = true
  raised : ∀ hops i entry, calls.Reads hops cloud i entry → ¬ calls.Completes hops cloud →
    stored_prefixes entry.routes ⊆ (prefixes (cloud.tables entry.route_table_id)).toFinset

section tick

variable {back_to_primary : Bool} {hops : NextHops} {cloud : Cloud} {calls : Calls} {i : ℕ}
  {entry : ConfigRouteTable}

/-- The pass over an entry asks for an upload when its table is read, and has a
primary to record or sizes that differ. -/
theorem CheckedTable.answered_config_changed_iff :
    (CheckedTable.answered back_to_primary hops cloud calls (entry, i)).config_changed = true ↔
      calls.routeTables i = .ok () ∧ cloud.tables entry.route_table_id ≠ [] ∧
        (¬ healthy_prefixes hops (cloud.tables entry.route_table_id) ⊆ stored_prefixes entry.routes ∨
          entry.routes ≠ none ∧ (stale hops entry.routes (cloud.tables entry.route_table_id)).card ≠
            (missing hops entry.routes (cloud.tables entry.route_table_id)).card) := by
  by_cases hread : calls.routeTables i = .ok ()
  · by_cases hempty : cloud.tables entry.route_table_id = []
    · simp [CheckedTable.answered, hread, CheckedTable.of, hempty, CheckedTable.skip]
    · rw [CheckedTable.answered, if_pos hread, CheckedTable.of, if_neg hempty, CheckedTable.read_config_changed_iff]
      simp only [hread, ne_eq, hempty, not_false_eq_true, true_and]
  · simp [CheckedTable.answered, hread, CheckedTable.skip]

/-- The pass over an entry leaves another entry when its table is read, and has a
primary to record or a stale prefix that it prunes. -/
theorem CheckedTable.answered_ne_iff :
    (CheckedTable.answered back_to_primary hops cloud calls (entry, i)).config_route_table ≠ entry ↔
      calls.routeTables i = .ok () ∧ cloud.tables entry.route_table_id ≠ [] ∧
        (¬ healthy_prefixes hops (cloud.tables entry.route_table_id) ⊆ stored_prefixes entry.routes ∨
          (stale hops entry.routes (cloud.tables entry.route_table_id)).card ≠
              (missing hops entry.routes (cloud.tables entry.route_table_id)).card ∧
            stale hops entry.routes (cloud.tables entry.route_table_id) ≠ ∅) := by
  by_cases hread : calls.routeTables i = .ok ()
  · by_cases hempty : cloud.tables entry.route_table_id = []
    · simp [CheckedTable.answered, hread, CheckedTable.of, hempty, CheckedTable.skip]
    · have hentry (routes : Option Routes) : { entry with routes } = entry ↔ routes = entry.routes := by
        cases entry
        simp
      rw [CheckedTable.answered, if_pos hread, CheckedTable.of, if_neg hempty, CheckedTable.read_config_route_table,
        ne_eq, hentry, kept_eq_self_iff, not_and_or, not_or]
      simp only [hread, ne_eq, hempty, not_false_eq_true, true_and]
  · simp [CheckedTable.answered, hread, CheckedTable.skip]

theorem put_config_ne_none_iff (hcalls : calls.Completes hops cloud) :
    (handler back_to_primary cloud calls).put_config ≠ none ↔ ∃ i entry, cloud.entry i = some entry ∧
      (CheckedTable.answered back_to_primary hops cloud calls (entry, i)).config_changed = true := by
  rw [handler_of_completes hcalls, Effects.of]
  simp only [ne_eq, ite_eq_right_iff, reduceCtorEq, imp_false, not_not, List.any_map, List.any_eq_true,
    Function.comp_apply, Prod.exists, List.mem_zipIdx_iff_getElem?]
  exact exists_comm

theorem tick_config_ne_iff (hcalls : calls.Completes hops cloud) (hput : calls.put_config = true) :
    (tick back_to_primary cloud calls).config ≠ cloud.config ↔ ∃ i entry, cloud.entry i = some entry ∧
      (CheckedTable.answered back_to_primary hops cloud calls (entry, i)).config_route_table ≠ entry := by
  constructor
  · contrapose!
    intro hsame
    by_cases hnone : (handler back_to_primary cloud calls).put_config = none
    · simp [tick, hnone]
    · have hentries : (tick back_to_primary cloud calls).entries = cloud.entries := by
        rw [tick_entries_of_completes hcalls hput, List.map_map]
        nth_rewrite 2 [← List.zipIdx_map_fst 0 cloud.entries]
        exact List.map_congr_left fun x hx => hsame x.2 x.1 (List.mem_zipIdx_iff_getElem?.mp hx)
      obtain ⟨i, entry, hentry, _⟩ := (put_config_ne_none_iff hcalls).mp hnone
      obtain ⟨route_tables, hconfig, hget⟩ := Cloud.entry_eq_some.mp hentry
      obtain ⟨after, hafter⟩ := tick_config back_to_primary cloud calls
      rw [Cloud.entries, Cloud.entries, hafter, hconfig, Option.getD_some] at hentries
      rw [hafter]
      cases after with
      | none =>
        rw [← hentries] at hget
        cases hget
      | some after =>
        rw [Option.getD_some] at hentries
        rw [hentries, ← hconfig]
  · rintro ⟨i, entry, hentry, hne⟩ hconfig
    have hstored : (tick back_to_primary cloud calls).entry i = _ := tick_entry_of_completes hcalls hput hentry
    rw [Cloud.entry, Cloud.entries, hconfig, ← Cloud.entries, ← Cloud.entry, hentry] at hstored
    exact hne (Option.some_injective _ hstored).symm

/-- An invocation that completes reads every table whose GET succeeds. -/
theorem Calls.Completes.reads (hcalls : calls.Completes hops cloud) (hentry : cloud.entry i = some entry)
    (hread : calls.routeTables i = .ok ()) : calls.Reads hops cloud i entry :=
  ⟨hcalls.toReaches, hentry, fun j _ other hother => hcalls.routeTables j other hother, hread⟩

/-- A table that is read without raising is empty or inspected to the end. -/
theorem Calls.Completes.readable (hcalls : calls.Completes hops cloud) (h : calls.Reads hops cloud i entry)
    (hne : cloud.tables entry.route_table_id ≠ []) : Readable (cloud.tables entry.route_table_id) := by
  refine ⟨hne, fun route hroute hnone => hcalls.routeTables i entry h.entry_eq ?_⟩
  exact Or.inr ⟨_, by rw [h.routeTables]; rfl, route, hroute, hnone⟩

section completes

variable (hcalls : calls.Completes hops cloud)
  (hstale : ∀ i entry, calls.Reads hops cloud i entry → Readable (cloud.tables entry.route_table_id) →
    (stale hops entry.routes (cloud.tables entry.route_table_id)).card =
        (missing hops entry.routes (cloud.tables entry.route_table_id)).card →
      stale hops entry.routes (cloud.tables entry.route_table_id) = ∅)

include hcalls hstale

/-- When no stale prefix is overlooked, the stored contents change exactly if some
table is outdated and the upload succeeds. -/
theorem config_ne_iff_finds : (tick back_to_primary cloud calls).config ≠ cloud.config ↔
    calls.put_config = true ∧ calls.FindsOutdated hops cloud := by
  by_cases hput : calls.put_config = true
  · rw [tick_config_ne_iff hcalls hput, and_iff_right hput]
    constructor
    · rintro ⟨i, entry, hentry, hdiffers⟩
      obtain ⟨hread, hne, houtdated⟩ := CheckedTable.answered_ne_iff.mp hdiffers
      exact ⟨i, entry, hcalls.reads hentry hread, hne, houtdated.imp_right And.right⟩
    · rintro ⟨i, entry, hreads, hne, houtdated⟩
      refine ⟨i, entry, hreads.entry_eq, CheckedTable.answered_ne_iff.mpr ⟨hreads.routeTables, hne, ?_⟩⟩
      exact houtdated.imp_right fun hsome =>
        ⟨fun hcard => hsome (hstale i entry hreads (hcalls.readable hreads hne) hcard), hsome⟩
  · rw [tick_config_of_not_uploaded fun _ _ => by simpa using hput]
    simp [hput]

/-- When no stale prefix is overlooked, an upload is due to an outdated table or to
missing prefixes. -/
theorem put_config_iff_finds : (handler back_to_primary cloud calls).put_config ≠ none ↔
    calls.FindsOutdated hops cloud ∨ calls.FindsMissing hops cloud := by
  rw [put_config_ne_none_iff hcalls]
  constructor
  · rintro ⟨i, entry, hentry, hchanged⟩
    obtain ⟨hread, hne, hchanged⟩ := CheckedTable.answered_config_changed_iff.mp hchanged
    have hreads := hcalls.reads hentry hread
    by_cases houtdated : Outdated hops entry.routes (cloud.tables entry.route_table_id)
    · exact Or.inl ⟨i, entry, hreads, hne, houtdated⟩
    · obtain ⟨hrecorded, hnone⟩ := not_or.mp houtdated
      obtain ⟨hroutes, hcard⟩ := hchanged.resolve_left hrecorded
      rw [not_not.mp hnone, Finset.card_empty] at hcard
      exact Or.inr ⟨i, entry, hreads, hne, hroutes, fun hmissing => hcard (by rw [hmissing, Finset.card_empty])⟩
  · intro h
    suffices hsome : ∃ i entry, calls.Reads hops cloud i entry ∧ cloud.tables entry.route_table_id ≠ [] ∧
        (¬ healthy_prefixes hops (cloud.tables entry.route_table_id) ⊆ stored_prefixes entry.routes ∨
          entry.routes ≠ none ∧ (stale hops entry.routes (cloud.tables entry.route_table_id)).card ≠
            (missing hops entry.routes (cloud.tables entry.route_table_id)).card) by
      obtain ⟨i, entry, hreads, hne, hchanged⟩ := hsome
      exact ⟨i, entry, hreads.entry_eq,
        CheckedTable.answered_config_changed_iff.mpr ⟨hreads.routeTables, hne, hchanged⟩⟩
    obtain ⟨i, entry, hreads, hne, houtdated⟩ | ⟨i, entry, hreads, hne, hroutes, hmissing⟩ := h
    · refine ⟨i, entry, hreads, hne, houtdated.imp_right fun hsome => ⟨?_, fun hcard => hsome ?_⟩⟩
      · intro hnone
        rw [stale, hnone] at hsome
        exact hsome (Finset.empty_sdiff _)
      · exact hstale i entry hreads (hcalls.readable hreads hne) hcard
    · refine ⟨i, entry, hreads, hne, Or.inr ⟨hroutes, fun hcard => hmissing ?_⟩⟩
      have hnone := hstale i entry hreads (hcalls.readable hreads hne) hcard
      rw [hnone, Finset.card_empty, eq_comm, Finset.card_eq_zero] at hcard
      exact hcard

/-- What is stored for a table that is read, after an invocation that completes. -/
theorem tick_entry_of_reads (hupload : calls.FindsOutdated hops cloud → calls.put_config = true)
    (hreads : calls.Reads hops cloud i entry) (hne : cloud.tables entry.route_table_id ≠ [])
    {stored : ConfigRouteTable} (hstored : (tick back_to_primary cloud calls).entry i = some stored) :
    stored_prefixes stored.routes ⊆ managed hops (cloud.tables entry.route_table_id) := by
  by_cases hput : calls.put_config = true
  · rw [tick_entry_of_completes hcalls hput hreads.entry_eq, CheckedTable.answered,
      if_pos hreads.routeTables] at hstored
    cases hstored
    rw [CheckedTable.of_config_route_table, if_neg hne]
    exact stored_prefixes_kept_subset (hstale i entry hreads (hcalls.readable hreads hne))
  · rw [tick_entry_of_not_uploaded fun _ _ => by simpa using hput, hreads.entry_eq] at hstored
    cases hstored
    have hcurrent : ¬ Outdated hops entry.routes (cloud.tables entry.route_table_id) :=
      fun houtdated => hput (hupload ⟨i, entry, hreads, hne, houtdated⟩)
    exact Finset.sdiff_eq_empty_iff_subset.mp (not_not.mp (not_or.mp hcurrent).2)

end completes

/-- An invocation that completes prunes as it should exactly when the sizes tell. -/
theorem pruned_iff_of_completes (hcalls : calls.Completes hops cloud) :
    Pruned back_to_primary cloud calls ↔ SizesTell cloud calls := by
  have hunique {other : NextHops} {i : ℕ} {entry : ConfigRouteTable} (h : calls.Reads other cloud i entry) :
      other = hops := h.toReaches.unique hcalls.toReaches
  constructor
  · intro h
    have hstale : ∀ i entry, calls.Reads hops cloud i entry → Readable (cloud.tables entry.route_table_id) → _ :=
      fun i entry hreads hreadable => sizes_decide_iff.mp (h.sizes hops i entry hreads hreadable)
    have hput := h.put_config
    rw [config_ne_iff_finds hcalls hstale, put_config_iff_finds hcalls hstale] at hput
    refine ⟨fun other i entry hreads hempty => ?_, fun other i entry hreads hreadable => ?_,
      fun other hother hmissing => ?_, fun other hother houtdated => ?_, fun other i entry hreads hraised => ?_⟩
    · obtain rfl := hunique hreads
      by_cases hupload : calls.put_config = true
      · have hstored : (tick back_to_primary cloud calls).entry i = _ :=
          tick_entry_of_completes hcalls hupload hreads.entry_eq
        rw [CheckedTable.answered, if_pos hreads.routeTables] at hstored
        have hsubset := h.stored _ i entry _ hreads hstored
        rw [CheckedTable.of_config_route_table, if_pos hempty, hempty] at hsubset
        exact Finset.subset_empty.mp hsubset
      · have hstored : (tick back_to_primary cloud calls).entry i = some entry := by
          rw [tick_entry_of_not_uploaded fun _ _ => by simpa using hupload, hreads.entry_eq]
        have hsubset := h.stored _ i entry _ hreads hstored
        rw [hempty] at hsubset
        exact Finset.subset_empty.mp hsubset
    · obtain rfl := hunique hreads
      exact hstale i entry hreads hreadable
    · obtain rfl := hother.toReaches.unique hcalls.toReaches
      exact (hput.mp (Or.inr hmissing)).2
    · obtain rfl := hother.toReaches.unique hcalls.toReaches
      exact (hput.mp (Or.inl houtdated)).1
    · obtain rfl := hunique hreads
      exact absurd hcalls hraised
  · intro h
    have hstale := h.stale hops
    refine ⟨fun other i entry stored hreads hstored => ?_, ?_, fun other i entry hreads hreadable =>
      sizes_decide_iff.mpr (h.stale other i entry hreads hreadable)⟩
    · obtain rfl := hunique hreads
      by_cases hempty : cloud.tables entry.route_table_id = []
      · obtain ⟨same, hsame, hcases⟩ := tick_entry_inv hstored
        rw [hreads.entry_eq] at hsame
        cases hsame
        obtain rfl | ⟨_, _, ⟨_, hreadable⟩, _⟩ := hcases
        · rw [h.empty _ i _ hreads hempty]
          exact Finset.empty_subset _
        · exact absurd hempty hreadable.1
      · exact (tick_entry_of_reads hcalls hstale (h.upload _ hcalls) hreads hempty hstored).trans
          managed_subset_prefixes
    · rw [config_ne_iff_finds hcalls hstale, put_config_iff_finds hcalls hstale]
      constructor
      · intro hfinds
        have houtdated := hfinds.elim id (h.missing hops hcalls)
        exact ⟨h.upload hops hcalls houtdated, houtdated⟩
      · exact fun hchanged => Or.inl hchanged.2

/-- An invocation that raises stores nothing: what is stored for the tables that it
has read must occur in them already. -/
theorem pruned_iff_of_not_completes (hcalls : ∀ hops, ¬ calls.Completes hops cloud) :
    Pruned back_to_primary cloud calls ↔ SizesTell cloud calls := by
  have hconfig : (tick back_to_primary cloud calls).config = cloud.config :=
    tick_config_of_not_uploaded fun hops hcompletes => absurd hcompletes (hcalls hops)
  have hentry (i : ℕ) : (tick back_to_primary cloud calls).entry i = cloud.entry i :=
    tick_entry_of_not_uploaded fun hops hcompletes => absurd hcompletes (hcalls hops)
  constructor
  · intro h
    have hstored {hops : NextHops} {i : ℕ} {entry : ConfigRouteTable} (hreads : calls.Reads hops cloud i entry) :=
      h.stored hops i entry entry hreads ((hentry i).trans hreads.entry_eq)
    refine ⟨fun hops i entry hreads hempty => ?_, fun hops i entry hreads hreadable =>
      sizes_decide_iff.mp (h.sizes hops i entry hreads hreadable), fun hops hcompletes => absurd hcompletes (hcalls hops),
      fun hops hcompletes => absurd hcompletes (hcalls hops), fun hops i entry hreads _ => hstored hreads⟩
    have hsubset := hstored hreads
    rw [hempty] at hsubset
    exact Finset.subset_empty.mp hsubset
  · intro h
    refine ⟨fun hops i entry stored hreads hstored => ?_, ?_, fun hops i entry hreads hreadable =>
      sizes_decide_iff.mpr (h.stale hops i entry hreads hreadable)⟩
    · rw [hentry, hreads.entry_eq] at hstored
      cases hstored
      exact h.raised hops i _ hreads (hcalls hops)
    · rw [handler_of_not_completes hcalls, hconfig]
      exact iff_of_false (fun hsome => hsome rfl) fun hchanged => hchanged rfl

/-- Pruning by size does in an invocation what it should exactly when the sizes
tell. -/
theorem pruned_iff_sizesTell : Pruned back_to_primary cloud calls ↔ SizesTell cloud calls := by
  by_cases hcompletes : ∃ hops, calls.Completes hops cloud
  · obtain ⟨hops, hcompletes⟩ := hcompletes
    exact pruned_iff_of_completes hcompletes
  · exact pruned_iff_of_not_completes (not_exists.mp hcompletes)

end tick

/-- The event, if it is a tick, prunes by set. -/
def Event.Prunes (back_to_primary : Bool) (cloud : Cloud) : Event → Prop
  | .tick calls => Pruned back_to_primary cloud calls
  | .edit _ _ => True

/-- The event, if it is a tick, meets sizes that tell. -/
def Event.Told (cloud : Cloud) : Event → Prop
  | .tick calls => SizesTell cloud calls
  | .edit _ _ => True

theorem Event.prunes_iff_told (back_to_primary : Bool) (cloud : Cloud) (event : Event) :
    event.Prunes back_to_primary cloud ↔ event.Told cloud := by
  cases event with
  | tick calls => exact pruned_iff_sizesTell
  | edit id routes => exact Iff.rfl

end solution_library.route_switcher_v2
