import SolutionLibrary.RouteSwitcherV2.Convergence

namespace solution_library.route_switcher_v2

/-- The requests of a run, none after an exception. -/
def issued (result : Except Exn Effects) : Effects :=
  match result with
  | .ok effects => effects
  | .error _ => .nothing

/-- The stored entries after a run whose upload succeeds. -/
def Effects.entries (config : Config) (effects : Effects) : List ConfigRouteTable :=
  (effects.put_config.getD config).route_tables.getD []

/-- The configuration that contains one route table alone. -/
def Config.alone (config : Config) (config_route_table : ConfigRouteTable) : Config :=
  { config with route_tables := some [config_route_table] }

/-- Requests and stored entries are those of the runs with one table each. -/
def FaultIsolated (back_to_primary : Bool) (config : Config) (route_tables : List ConfigRouteTable)
    (targetStates : Answer (Option (List TargetState)))
    (routeTables : ℕ → String → Answer (Option (List StaticRoute))) : Prop :=
  let together := { config with route_tables := some route_tables }
  let run := issued (check_router_statuses back_to_primary together targetStates routeTables)
  let single (entry : ConfigRouteTable × ℕ) :=
    issued (check_router_statuses back_to_primary (config.alone entry.1) targetStates fun _ => routeTables entry.2)
  run.all_routeTables = route_tables.zipIdx.flatMap (fun entry => (single entry).all_routeTables) ∧
    run.entries together = route_tables.zipIdx.flatMap fun entry => (single entry).entries (config.alone entry.1)

/-- The answer to the GET of a route table makes the function raise: the body of
an error is no JSON object, or a route has no next hop address. -/
def Answer.Raises (answer : Answer (Option (List StaticRoute))) : Prop :=
  answer = .refused .other ∨ ∃ routeTable, answer = .ok (some routeTable) ∧
    ∃ route ∈ routeTable, route.nextHopAddress = none

/-- The table is to stay as it is: no route is to be moved, no primary to be
recorded and no prefix to be pruned. -/
structure Quiet (back_to_primary : Bool) (hops : NextHops) (routes : Option Routes)
    (routeTable : List StaticRoute) : Prop where
  moves : ∀ route ∈ routeTable, reroute back_to_primary hops routes route = none
  records : ∀ route ∈ routeTable, recordable hops route = none ∨ primary routes route.destinationPrefix ≠ none
  prunes : (stored_prefixes routes).card = (managed hops routeTable).card ∨
    stored_prefixes routes ⊆ managed hops routeTable

theorem quiet_iff_settled {back_to_primary : Bool} {hops : NextHops} {routes : Option Routes}
    {routeTable : List StaticRoute} :
    Quiet back_to_primary hops routes routeTable ↔ Settled back_to_primary hops routes routeTable := by
  constructor
  · rintro ⟨hmoves, hrecords, hprunes⟩
    have hrecord := record_eq_self_iff.mpr hrecords
    refine ⟨?_, (kept_eq_self_iff_of_record hrecord).mpr hprunes⟩
    rintro ⟨route, hroute, hmove⟩
    rw [hrecord] at hmove
    exact hmove (hmoves route hroute)
  · rintro ⟨hmoves, hkept⟩
    have hrecord := record_eq_self_of_kept hkept
    refine ⟨fun route hroute => ?_, record_eq_self_iff.mp hrecord, (kept_eq_self_iff_of_record hrecord).mp hkept⟩
    have hstay := reroute_eq_none hmoves hroute
    rwa [hrecord] at hstay

section pass

variable {back_to_primary : Bool} {hops : NextHops} {answer : Answer (Option (List StaticRoute))}
  {entry : ConfigRouteTable}

/-- What the run for one table alone makes of the result of its pass. -/
def CheckedTable.orSkip (entry : ConfigRouteTable) (result : Except Exn CheckedTable) : CheckedTable :=
  match result with
  | .ok checked => checked
  | .error _ => .skip entry

variable (back_to_primary hops entry) in
theorem check_route_table_raises : (∃ e, check_route_table back_to_primary hops answer entry = .error e) ↔
    answer.Raises := by
  constructor
  · rintro ⟨e, h⟩
    cases answer with
    | failed => cases h
    | refused body =>
      cases body with
      | object => cases h
      | other => exact Or.inl rfl
    | ok staticRoutes =>
      match staticRoutes with
      | none => cases h
      | some [] => cases h
      | some (first :: rest) =>
        refine Or.inr ⟨first :: rest, rfl, ?_⟩
        by_contra hnone
        push Not at hnone
        rw [check_route_table_of_readable back_to_primary hops entry ⟨by simp, hnone⟩] at h
        cases h
  · rintro (rfl | ⟨routeTable, rfl, hnone⟩)
    · exact ⟨.errorBody, rfl⟩
    · match routeTable with
      | [] => simp at hnone
      | first :: rest =>
        rw [check_route_table, check_routes_error back_to_primary hops hnone]
        exact ⟨_, rfl⟩

/-- A pass without `config_changed` leaves the entry as it was. -/
theorem check_route_table_unchanged {checked : CheckedTable}
    (h : check_route_table back_to_primary hops answer entry = .ok checked)
    (hchanged : checked.config_changed = false) : checked.config_route_table = entry := by
  obtain rfl | ⟨routeTable, _, _, rfl⟩ := check_route_table_cases h
  · rfl
  · rw [CheckedTable.read_config_route_table, CheckedTable.read_of_unchanged hchanged]

/-- The run for one table alone has no effect exactly when the table, if it can
be read, is to stay as it is. -/
theorem orSkip_quiet_iff :
    ((CheckedTable.orSkip entry (check_route_table back_to_primary hops answer entry)).modified = none ∧
      (CheckedTable.orSkip entry (check_route_table back_to_primary hops answer entry)).config_route_table = entry) ↔
      ∀ routeTable, answer = .ok (some routeTable) → Readable routeTable →
        Quiet back_to_primary hops entry.routes routeTable := by
  by_cases hread : ∃ routeTable, answer = .ok (some routeTable) ∧ Readable routeTable
  · obtain ⟨routeTable, rfl, hreadable⟩ := hread
    have hmodified : (∃ table, (CheckedTable.read back_to_primary hops entry routeTable).modified = some table) ↔
        Moves back_to_primary hops entry.routes routeTable := CheckedTable.read_modified
    rw [check_route_table_of_readable back_to_primary hops entry hreadable, CheckedTable.orSkip]
    constructor
    · rintro ⟨hnone, hsame⟩ other hother _
      cases hother
      refine quiet_iff_settled.mpr ⟨fun hmoves => ?_, congrArg ConfigRouteTable.routes hsame⟩
      obtain ⟨table, htable⟩ := hmodified.mpr hmoves
      rw [hnone] at htable
      cases htable
    · intro h
      have hsettled := quiet_iff_settled.mp (h routeTable rfl hreadable)
      refine ⟨Option.eq_none_iff_forall_ne_some.mpr fun table htable => ?_, ?_⟩
      · exact hsettled.moves (hmodified.mp ⟨table, htable⟩)
      · rw [CheckedTable.read_config_route_table, hsettled.kept]
  · have hskip : CheckedTable.orSkip entry (check_route_table back_to_primary hops answer entry) = .skip entry := by
      cases hresult : check_route_table back_to_primary hops answer entry with
      | error e => rfl
      | ok checked =>
        obtain rfl | ⟨routeTable, hanswer, hreadable, _⟩ := check_route_table_cases hresult
        · rfl
        · exact absurd ⟨routeTable, hanswer, hreadable⟩ hread
    rw [hskip]
    exact iff_of_true ⟨rfl, rfl⟩ fun routeTable hanswer hreadable => absurd ⟨routeTable, hanswer, hreadable⟩ hread

end pass

section run

variable {back_to_primary : Bool} {config : Config} {targetStates : Answer (Option (List TargetState))}
  {routeTables : ℕ → String → Answer (Option (List StaticRoute))} {hops : NextHops}

/-- The pass of the loop over the route tables for the entry at a position. -/
def check_entry (back_to_primary : Bool) (hops : NextHops)
    (routeTables : ℕ → String → Answer (Option (List StaticRoute))) (entry : ConfigRouteTable × ℕ) :
    Except Exn CheckedTable :=
  check_route_table back_to_primary hops (routeTables entry.2 entry.1.route_table_id) entry.1

variable (back_to_primary config routeTables) in
theorem check_router_statuses_of_targets (htargets : check_targets config targetStates = .ok (some hops))
    {route_tables : List ConfigRouteTable} (hconfig : config.route_tables = some route_tables) :
    check_router_statuses back_to_primary config targetStates routeTables =
      (route_tables.zipIdx.mapM (check_entry back_to_primary hops routeTables)).map (Effects.of config) := by
  have hpass : check_entry back_to_primary hops routeTables = fun entry =>
    check_route_table back_to_primary hops (routeTables entry.2 entry.1.route_table_id) entry.1 := rfl
  simp only [check_router_statuses, htargets, hconfig, bind, Except.bind, ← hpass]
  cases route_tables.zipIdx.mapM (check_entry back_to_primary hops routeTables) <;> rfl

theorem issued_of_stopped (hstopped : ∀ hops, check_targets config targetStates ≠ .ok (some hops)) :
    issued (check_router_statuses back_to_primary config targetStates routeTables) = .nothing := by
  cases htargets : check_targets config targetStates with
  | error e => simp [check_router_statuses, htargets, bind, Except.bind, issued]
  | ok reached =>
    cases reached with
    | none => simp [check_router_statuses, htargets, bind, Except.bind, issued]
    | some hops => exact absurd htargets (hstopped hops)

theorem Effects.entries_of {route_tables : List ConfigRouteTable} {checked : List CheckedTable}
    (hconfig : config.route_tables = some route_tables)
    (hunchanged : List.Forall₂ (fun entry checked =>
      CheckedTable.config_changed checked = false → checked.config_route_table = entry) route_tables checked) :
    (Effects.of config checked).entries config = checked.map CheckedTable.config_route_table := by
  rw [Effects.entries, Effects.of]
  split
  · rfl
  · next hnone =>
    rw [Option.getD_none, hconfig, Option.getD_some]
    simp only [List.any_eq_true, not_exists, not_and, Bool.not_eq_true] at hnone
    clear hconfig
    induction hunchanged with
    | nil => rfl
    | cons hhead _ ih =>
      obtain ⟨hfirst, hrest⟩ := List.forall_mem_cons.mp hnone
      rw [List.map_cons, hhead hfirst, ← ih hrest]

/-- The effects of the run for one table alone. -/
theorem issued_alone (htargets : check_targets config targetStates = .ok (some hops))
    (entry : ConfigRouteTable × ℕ) :
    let checked := CheckedTable.orSkip entry.1 (check_entry back_to_primary hops routeTables entry)
    let run := issued (check_router_statuses back_to_primary (config.alone entry.1) targetStates fun _ =>
      routeTables entry.2)
    run.all_routeTables = checked.modified.toList ∧
      run.entries (config.alone entry.1) = [checked.config_route_table] := by
  intro checked run
  have hrun : run = issued ((check_entry back_to_primary hops routeTables entry).map fun checked =>
      Effects.of (config.alone entry.1) [checked]) := by
    have hone := check_router_statuses_of_targets back_to_primary (config.alone entry.1)
      (fun _ => routeTables entry.2) htargets rfl
    rw [show run = issued _ from congrArg issued hone, List.zipIdx_cons, List.zipIdx_nil, List.mapM_cons,
      List.mapM_nil]
    change issued ((check_entry back_to_primary hops routeTables entry >>= fun checked =>
      pure [checked]).map _) = _
    cases check_entry back_to_primary hops routeTables entry <;> rfl
  cases hresult : check_entry back_to_primary hops routeTables entry with
  | error e =>
    rw [hrun, show checked = .skip entry.1 from congrArg (CheckedTable.orSkip entry.1) hresult, hresult]
    exact ⟨rfl, rfl⟩
  | ok result =>
    rw [hrun, show checked = result from congrArg (CheckedTable.orSkip entry.1) hresult, hresult]
    refine ⟨?_, ?_⟩
    · change [result].filterMap CheckedTable.modified = _
      cases hmodified : result.modified <;> simp [hmodified]
    · exact Effects.entries_of rfl (.cons (check_route_table_unchanged hresult) .nil)

variable {route_tables : List ConfigRouteTable}

/-- A report that ends the invocation before the loop isolates all tables. -/
theorem isolated_of_stopped (hstopped : ∀ hops, check_targets config targetStates ≠ .ok (some hops)) :
    FaultIsolated back_to_primary config route_tables targetStates routeTables := by
  have hsingle (entry : ConfigRouteTable × ℕ) :
      issued (check_router_statuses back_to_primary (config.alone entry.1) targetStates fun _ =>
        routeTables entry.2) = .nothing := issued_of_stopped hstopped
  have htogether : issued (check_router_statuses back_to_primary { config with route_tables := some route_tables }
      targetStates routeTables) = .nothing := issued_of_stopped hstopped
  simp only [FaultIsolated, hsingle, htogether]
  refine ⟨by simp [Effects.nothing], ?_⟩
  change route_tables = route_tables.zipIdx.flatMap fun entry => [entry.1]
  rw [← List.map_eq_flatMap, List.zipIdx_map_fst]

/-- What the run for the table of an entry alone makes of its pass. -/
def alone (back_to_primary : Bool) (hops : NextHops)
    (routeTables : ℕ → String → Answer (Option (List StaticRoute))) (entry : ConfigRouteTable × ℕ) : CheckedTable :=
  .orSkip entry.1 (check_entry back_to_primary hops routeTables entry)

/-- Isolation compares the run for all tables with what the runs for one table
each make of the passes. -/
theorem isolated_iff_alone (htargets : check_targets config targetStates = .ok (some hops)) :
    FaultIsolated back_to_primary config route_tables targetStates routeTables ↔
      let together := { config with route_tables := some route_tables }
      let run := issued ((route_tables.zipIdx.mapM (check_entry back_to_primary hops routeTables)).map
        (Effects.of together))
      run.all_routeTables =
          (route_tables.zipIdx.map (alone back_to_primary hops routeTables)).filterMap CheckedTable.modified ∧
        run.entries together =
          (route_tables.zipIdx.map (alone back_to_primary hops routeTables)).map CheckedTable.config_route_table := by
  have hrun := check_router_statuses_of_targets back_to_primary { config with route_tables := some route_tables }
    routeTables htargets rfl
  simp only [FaultIsolated, (issued_alone htargets _).1, (issued_alone htargets _).2, hrun]
  rw [List.filterMap_map, List.filterMap_eq_flatMap_toList, List.map_map, List.map_eq_flatMap]
  rfl

/-- When a pass raises, the run for all tables has no effect. -/
theorem isolated_iff_of_raises (htargets : check_targets config targetStates = .ok (some hops))
    (hraises : ∃ entry ∈ route_tables.zipIdx, ∃ e, check_entry back_to_primary hops routeTables entry = .error e) :
    FaultIsolated back_to_primary config route_tables targetStates routeTables ↔
      ∀ entry ∈ route_tables.zipIdx, (alone back_to_primary hops routeTables entry).modified = none ∧
        (alone back_to_primary hops routeTables entry).config_route_table = entry.1 := by
  obtain ⟨e, he⟩ := traversal.mapM_error hraises
  rw [isolated_iff_alone htargets, he]
  change [] = _ ∧ route_tables = _ ↔ _
  have hstored :
      route_tables.zipIdx.map (fun entry => (alone back_to_primary hops routeTables entry).config_route_table) =
      route_tables ↔ ∀ entry ∈ route_tables.zipIdx,
        (alone back_to_primary hops routeTables entry).config_route_table = entry.1 := by
    rw [← List.map_inj_left, List.zipIdx_map_fst]
  rw [eq_comm, List.filterMap_eq_nil_iff, List.forall_mem_map, eq_comm, List.map_map]
  exact (and_congr_right fun _ => hstored).trans forall₂_and.symm

/-- When no pass raises, the run for all tables has the results of the passes. -/
theorem isolated_of_passes (htargets : check_targets config targetStates = .ok (some hops))
    (hpasses : ∀ entry ∈ route_tables.zipIdx, ∀ e, check_entry back_to_primary hops routeTables entry ≠ .error e) :
    FaultIsolated back_to_primary config route_tables targetStates routeTables := by
  have hpass : ∀ entry ∈ route_tables.zipIdx, check_entry back_to_primary hops routeTables entry =
      .ok (alone back_to_primary hops routeTables entry) := by
    intro entry hentry
    cases hresult : check_entry back_to_primary hops routeTables entry with
    | error e => exact absurd hresult (hpasses entry hentry e)
    | ok checked => simp [alone, hresult, CheckedTable.orSkip]
  have hunchanged : List.Forall₂ (fun entry checked =>
      CheckedTable.config_changed checked = false → checked.config_route_table = entry)
      (route_tables.zipIdx.map Prod.fst) (route_tables.zipIdx.map (alone back_to_primary hops routeTables)) := by
    rw [List.forall₂_map_left_iff, List.forall₂_map_right_iff, List.forall₂_same]
    exact fun entry hentry => check_route_table_unchanged (hpass entry hentry)
  rw [List.zipIdx_map_fst] at hunchanged
  rw [isolated_iff_alone htargets, traversal.mapM_eq_ok hpass]
  exact ⟨rfl, Effects.entries_of rfl hunchanged⟩

theorem isolated_iff_passes (htargets : check_targets config targetStates = .ok (some hops)) :
    FaultIsolated back_to_primary config route_tables targetStates routeTables ↔
      (∀ entry ∈ route_tables.zipIdx, ∀ e, check_entry back_to_primary hops routeTables entry ≠ .error e) ∨
        ∀ entry ∈ route_tables.zipIdx, (alone back_to_primary hops routeTables entry).modified = none ∧
          (alone back_to_primary hops routeTables entry).config_route_table = entry.1 := by
  by_cases hraises : ∃ entry ∈ route_tables.zipIdx, ∃ e, check_entry back_to_primary hops routeTables entry = .error e
  · rw [isolated_iff_of_raises htargets hraises, or_iff_right]
    push Not
    exact hraises
  · push Not at hraises
    exact iff_of_true (isolated_of_passes htargets hraises) (Or.inl hraises)

/-- The tables are isolated exactly when the report ends the invocation before
the loop, or no answer makes the function raise, or every table that can be
read is to stay as it is. -/
theorem isolated_iff :
    FaultIsolated back_to_primary config route_tables targetStates routeTables ↔
      ∀ hops, check_targets config targetStates = .ok (some hops) →
        (∀ entry ∈ route_tables.zipIdx, ¬ (routeTables entry.2 entry.1.route_table_id).Raises) ∨
          ∀ entry ∈ route_tables.zipIdx, ∀ routeTable,
            routeTables entry.2 entry.1.route_table_id = .ok (some routeTable) →
              Readable routeTable → Quiet back_to_primary hops entry.1.routes routeTable := by
  by_cases hreached : ∃ hops, check_targets config targetStates = .ok (some hops)
  · obtain ⟨hops, htargets⟩ := hreached
    have hpasses (entry : ConfigRouteTable × ℕ) :
        (∀ e, check_entry back_to_primary hops routeTables entry ≠ .error e) ↔
          ¬ (routeTables entry.2 entry.1.route_table_id).Raises := by
      rw [← check_route_table_raises back_to_primary hops entry.1]
      exact not_exists.symm
    rw [isolated_iff_passes htargets]
    simp only [hpasses]
    simp only [alone, check_entry, orSkip_quiet_iff]
    constructor
    · rintro h other hother
      rw [htargets] at hother
      cases hother
      exact h
    · exact fun h => h hops htargets
  · push Not at hreached
    exact iff_of_true (isolated_of_stopped hreached) fun hops htargets => absurd htargets (hreached hops)

end run

/-- A table with a route to a gateway cancels the failover of another table. -/
theorem gateway_route_cancels_failover : ¬ ∀ back_to_primary config route_tables targetStates routeTables,
    FaultIsolated back_to_primary config route_tables targetStates routeTables := by
  intro h
  let gateway_route : StaticRoute := ⟨"10.0.0.0/8", some (.gateway_id "enpgateway"), []⟩
  have hisolated := (h true
    { loadBalancerId := "lb", targetGroupId := "tg", route_tables := none, routers := some readme_routers }
    [⟨"enp000000000000dmzrt", none⟩, ⟨"enp00000000000nattrt", none⟩]
    (.ok (some (readme_report .UNHEALTHY .HEALTHY)))
    fun i _ => .ok (some (if i = 0 then [default_route "10.160.1.10"] else [gateway_route]))).1
  revert hisolated
  decide

end solution_library.route_switcher_v2
