import SolutionLibrary.Library.Traversal
import SolutionLibrary.RouteSwitcherV2.Handler

namespace solution_library.route_switcher_v2

/-- The route list of a table is inspected to the end: it is not empty, and
every route carries a next hop address. -/
def Readable (routeTable : List StaticRoute) : Prop :=
  routeTable ≠ [] ∧ ∀ route ∈ routeTable, route.nextHopAddress ≠ none

/-- The stored dictionary after a pass over `routeTable`. -/
def kept (hops : NextHops) (routes : Option Routes) (routeTable : List StaticRoute) : Option Routes :=
  (record hops routes routeTable).map (prune (managed hops routeTable))

/-- The route list as a pass leaves it. -/
def moved (back_to_primary : Bool) (hops : NextHops) (routes : Option Routes) (routeTable : List StaticRoute) :
    List StaticRoute :=
  routeTable.map (rerouted back_to_primary hops (record hops routes routeTable))

/-- Some route of the table obtains a new next hop. -/
def Moves (back_to_primary : Bool) (hops : NextHops) (routes : Option Routes) (routeTable : List StaticRoute) :
    Prop :=
  ∃ route ∈ routeTable, reroute back_to_primary hops (record hops routes routeTable) route ≠ none

theorem reroute_eq_none {back_to_primary : Bool} {hops : NextHops} {routes : Option Routes}
    {routeTable : List StaticRoute} (h : ¬ Moves back_to_primary hops routes routeTable) {route : StaticRoute}
    (hroute : route ∈ routeTable) :
    reroute back_to_primary hops (record hops routes routeTable) route = none := by
  by_contra hmove
  exact h ⟨route, hroute, hmove⟩

theorem moved_eq_self {back_to_primary : Bool} {hops : NextHops} {routes : Option Routes}
    {routeTable : List StaticRoute} (h : ¬ Moves back_to_primary hops routes routeTable) :
    moved back_to_primary hops routes routeTable = routeTable :=
  (List.map_congr_left fun _ hroute => rerouted_of_none (reroute_eq_none h hroute)).trans (List.map_id _)

/-- The result of a pass over a readable table. -/
def CheckedTable.read (back_to_primary : Bool) (hops : NextHops) (config_route_table : ConfigRouteTable)
    (routeTable : List StaticRoute) : CheckedTable :=
  let routes := record hops config_route_table.routes routeTable
  { config_route_table := { config_route_table with
      routes := kept hops config_route_table.routes routeTable }
    modified := (routeTable.foldl (fun changes route =>
        (reroute back_to_primary hops routes route).or changes) none).map fun next_hop =>
      { route_table_id := config_route_table.route_table_id, next_hop
        routes := sort_routes (moved back_to_primary hops config_route_table.routes routeTable) }
    config_changed := routes ≠ config_route_table.routes ||
      routes.any fun routes => routes.keys.card ≠ (managed hops routeTable).card }

@[simp] theorem CheckedTable.read_config_route_table (back_to_primary : Bool) (hops : NextHops)
    (config_route_table : ConfigRouteTable) (routeTable : List StaticRoute) :
    (CheckedTable.read back_to_primary hops config_route_table routeTable).config_route_table =
      { config_route_table with routes := kept hops config_route_table.routes routeTable } := rfl

theorem CheckedTable.read_modified {back_to_primary : Bool} {hops : NextHops}
    {config_route_table : ConfigRouteTable} {routeTable : List StaticRoute} :
    (∃ table, (CheckedTable.read back_to_primary hops config_route_table routeTable).modified = some table) ↔
      Moves back_to_primary hops config_route_table.routes routeTable := by
  rw [← Option.isSome_iff_exists]
  simp [CheckedTable.read, foldl_reroute_isSome, Moves]

theorem CheckedTable.read_modified_eq {back_to_primary : Bool} {hops : NextHops}
    {config_route_table : ConfigRouteTable} {routeTable : List StaticRoute} {table : RouteTable}
    (h : (CheckedTable.read back_to_primary hops config_route_table routeTable).modified = some table) :
    table.route_table_id = config_route_table.route_table_id ∧
      table.routes = sort_routes (moved back_to_primary hops config_route_table.routes routeTable) := by
  obtain ⟨next_hop, _, rfl⟩ := Option.map_eq_some_iff.mp h
  exact ⟨rfl, rfl⟩

theorem sort_routes_perm (routeTable : List StaticRoute) : (sort_routes routeTable).Perm routeTable :=
  List.perm_insertionSort _ _

theorem mem_keys_iff {routes : Routes} {destinationPrefix : String} :
    destinationPrefix ∈ routes.keys ↔ primary (some routes) destinationPrefix ≠ none := by
  rw [Finmap.mem_keys, primary_some, ne_eq, Finmap.lookup_eq_none, not_not]

/-- The prefixes with a stored primary. -/
def stored_prefixes (routes : Option Routes) : Finset String :=
  routes.elim ∅ Finmap.keys

theorem mem_stored_prefixes {routes : Option Routes} {destinationPrefix : String} :
    destinationPrefix ∈ stored_prefixes routes ↔ primary routes destinationPrefix ≠ none := by
  cases routes with
  | none => simp [stored_prefixes]
  | some routes => exact mem_keys_iff

/-- Pruning forgets the prefixes that are not managed, all of them or none. -/
theorem primary_kept (hops : NextHops) (routes : Option Routes) (routeTable : List StaticRoute)
    (destinationPrefix : String) :
    primary (kept hops routes routeTable) destinationPrefix =
      if (stored_prefixes (record hops routes routeTable)).card ≠ (managed hops routeTable).card ∧
          destinationPrefix ∉ managed hops routeTable then none
      else primary (record hops routes routeTable) destinationPrefix := by
  rw [kept]
  cases record hops routes routeTable with
  | none => simp
  | some recorded =>
    simp only [Option.map_some, primary_some, prune, stored_prefixes, Option.elim_some]
    by_cases hcard : recorded.keys.card = (managed hops routeTable).card
    · simp [hcard]
    · by_cases hmanaged : destinationPrefix ∈ managed hops routeTable
      · simp [hcard, hmanaged]
      · simp only [hcard, hmanaged, ne_eq, not_false_eq_true, and_self, if_true, finmap.lookup_eraseAll,
          Finset.mem_sdiff, Finmap.mem_keys, and_true]
        split
        · rfl
        · next hmem => exact Finmap.lookup_eq_none.mpr hmem

theorem prune_of_card_eq {routeTable_prefixes : Finset String} {routes : Routes}
    (h : routes.keys.card = routeTable_prefixes.card) : prune routeTable_prefixes routes = routes := by
  simp [prune, h]

/-- Without `config_changed` the entry is left as it was. -/
theorem CheckedTable.read_of_unchanged {back_to_primary : Bool} {hops : NextHops}
    {config_route_table : ConfigRouteTable} {routeTable : List StaticRoute}
    (h : (CheckedTable.read back_to_primary hops config_route_table routeTable).config_changed = false) :
    kept hops config_route_table.routes routeTable = config_route_table.routes := by
  simp only [CheckedTable.read, Bool.or_eq_false_iff, decide_eq_false_iff_not, not_not] at h
  obtain ⟨hsame, hcard⟩ := h
  rw [hsame] at hcard
  rw [kept, hsame]
  cases hroutes : config_route_table.routes with
  | none => rfl
  | some routes =>
    rw [hroutes] at hcard
    rw [Option.map_some, prune_of_card_eq (by simpa using hcard)]

/-- A pass over a readable table in closed form. -/
theorem check_route_table_of_readable (back_to_primary : Bool) (hops : NextHops)
    (config_route_table : ConfigRouteTable) {routeTable : List StaticRoute} (h : Readable routeTable) :
    check_route_table back_to_primary hops (.ok (some routeTable)) config_route_table =
      .ok (.read back_to_primary hops config_route_table routeTable) := by
  obtain ⟨hne, haddresses⟩ := h
  cases routeTable with
  | nil => exact absurd rfl hne
  | cons first rest =>
    rw [check_route_table, check_routes_eq back_to_primary hops haddresses]
    simp [bind, Except.bind, CheckedTable.read, kept, moved]

/-- What one pass of the loop over the route tables can do. -/
theorem check_route_table_cases {back_to_primary : Bool} {hops : NextHops}
    {answer : Answer (Option (List StaticRoute))} {config_route_table : ConfigRouteTable}
    {checked : CheckedTable}
    (h : check_route_table back_to_primary hops answer config_route_table = .ok checked) :
    checked = .skip config_route_table ∨ ∃ routeTable, answer = .ok (some routeTable) ∧ Readable routeTable ∧
      checked = .read back_to_primary hops config_route_table routeTable := by
  cases answer with
  | failed => exact Or.inl (by cases h; rfl)
  | refused body =>
    cases body with
    | object => exact Or.inl (by cases h; rfl)
    | other => cases h
  | ok staticRoutes =>
    cases staticRoutes with
    | none => exact Or.inl (by cases h; rfl)
    | some routeTable =>
      by_cases hempty : routeTable = []
      · subst hempty
        exact Or.inl (by cases h; rfl)
      · by_cases haddresses : ∀ route ∈ routeTable, route.nextHopAddress ≠ none
        · have hreadable : Readable routeTable := ⟨hempty, haddresses⟩
          rw [check_route_table_of_readable back_to_primary hops config_route_table hreadable] at h
          cases h
          exact Or.inr ⟨routeTable, rfl, hreadable, rfl⟩
        · push Not at haddresses
          cases routeTable with
          | nil => exact absurd rfl hempty
          | cons first rest =>
            rw [check_route_table, check_routes_error back_to_primary hops haddresses] at h
            cases h

/-- The loop over the route tables is reached exactly for a report of two
targets or more, one of them `HEALTHY`, when the configuration has routers. -/
theorem check_targets_eq_some {config : Config} {targetStates : Answer (Option (List TargetState))}
    {hops : NextHops} :
    check_targets config targetStates = .ok (some hops) ↔
      ∃ targets routers, targetStates = .ok (some targets) ∧ 2 ≤ targets.length ∧
        (∃ address, (targetStatus targets).lookup address = some .HEALTHY) ∧
        config.routers = some routers ∧ nexthops (targetStatus targets) routers = hops := by
  cases targetStates with
  | failed => simp [check_targets]
  | refused body => cases body <;> simp [check_targets]
  | ok staticRoutes =>
    cases staticRoutes with
    | none => simp [check_targets]
    | some targets =>
      have hhealthy : (∀ address ∈ (targetStatus targets).keys,
            (targetStatus targets).lookup address ≠ some .HEALTHY) ↔
          ¬ ∃ address, (targetStatus targets).lookup address = some .HEALTHY := by
        constructor
        · rintro h ⟨address, haddress⟩
          exact h address (Finmap.mem_keys.mpr (Finmap.mem_of_lookup_eq_some haddress)) haddress
        · intro h address _ haddress
          exact h ⟨address, haddress⟩
      rw [check_targets]
      by_cases hlen : targets.length < 2
      · simp [hlen]
      · have htwo : 2 ≤ targets.length := by omega
        rw [if_neg hlen]
        by_cases hsome : ∃ address, (targetStatus targets).lookup address = some .HEALTHY
        · rw [if_neg (fun h => hhealthy.mp h hsome)]
          simp [htwo, hsome]
        · rw [if_pos (hhealthy.mpr hsome)]
          simp [hsome]

/-- The pass over the entry at a position either skips it or reads the live
routes. -/
def CheckedTable.Follows (back_to_primary : Bool) (hops : NextHops) (cloud : Cloud) (calls : Calls)
    (entry : ConfigRouteTable × ℕ) (checked : CheckedTable) : Prop :=
  checked = .skip entry.1 ∨
    (calls.routeTables entry.2 = .ok () ∧ Readable (cloud.tables entry.1.route_table_id)) ∧
      checked = .read back_to_primary hops entry.1 (cloud.tables entry.1.route_table_id)

/-- The requests issued for a list of checked tables. -/
def Effects.of (config : Config) (checked : List CheckedTable) : Effects :=
  { all_routeTables := checked.filterMap CheckedTable.modified
    put_config :=
      if checked.any CheckedTable.config_changed then
        some { config with route_tables := some (checked.map CheckedTable.config_route_table) }
      else none }

/-- What one invocation can request. -/
theorem handler_cases (back_to_primary : Bool) (cloud : Cloud) (calls : Calls) :
    handler back_to_primary cloud calls = .nothing ∨
      ∃ hops route_tables checked, check_targets cloud.config calls.targetStates = .ok (some hops) ∧
        cloud.config.route_tables = some route_tables ∧
        List.Forall₂ (CheckedTable.Follows back_to_primary hops cloud calls) route_tables.zipIdx checked ∧
        handler back_to_primary cloud calls = .of cloud.config checked := by
  by_cases hget : calls.get_config
  · simp only [handler, hget, if_true, check_router_statuses]
    cases htargets : check_targets cloud.config calls.targetStates with
    | error e => exact Or.inl rfl
    | ok reached =>
      cases reached with
      | none => exact Or.inl rfl
      | some hops =>
        cases hconfig : cloud.config.route_tables with
        | none => exact Or.inl rfl
        | some route_tables =>
          simp only [bind, Except.bind]
          cases hchecked : route_tables.zipIdx.mapM fun x =>
            check_route_table back_to_primary hops ((calls.routeTables x.2).map fun _ =>
              some (cloud.tables x.1.route_table_id)) x.1 with
          | error e => exact Or.inl rfl
          | ok checked =>
            refine Or.inr ⟨hops, route_tables, checked, rfl, rfl, ?_, rfl⟩
            refine (traversal.mapM_eq_ok_iff.mp hchecked).imp fun x result hresult => ?_
            obtain hskip | ⟨routeTable, hanswer, hreadable, hread⟩ := check_route_table_cases hresult
            · exact Or.inl hskip
            · cases hcall : calls.routeTables x.2 with
              | failed => rw [hcall] at hanswer; cases hanswer
              | refused body => rw [hcall] at hanswer; cases hanswer
              | ok _ =>
                rw [hcall] at hanswer
                cases hanswer
                exact Or.inr ⟨⟨hcall, hreadable⟩, hread⟩
  · exact Or.inl (by simp [handler, hget])

/-- The stored `route_tables`, by position. -/
def Cloud.entries (cloud : Cloud) : List ConfigRouteTable :=
  cloud.config.route_tables.getD []

def Cloud.entry (cloud : Cloud) (i : ℕ) : Option ConfigRouteTable :=
  cloud.entries[i]?

theorem Cloud.entry_eq_some {cloud : Cloud} {i : ℕ} {entry : ConfigRouteTable} :
    cloud.entry i = some entry ↔
      ∃ route_tables, cloud.config.route_tables = some route_tables ∧ route_tables[i]? = some entry := by
  cases hconfig : cloud.config.route_tables <;> simp [Cloud.entry, Cloud.entries, hconfig]

theorem Cloud.mem_entries {cloud : Cloud} {i : ℕ} {entry : ConfigRouteTable}
    (h : cloud.entry i = some entry) : entry ∈ cloud.entries :=
  List.mem_of_getElem? h

/-- What a tick can store for one entry: the entry as it was, or with the
dictionary that a pass over the live table keeps. -/
theorem tick_entry {cloud : Cloud} {i : ℕ} {entry : ConfigRouteTable} (hentry : cloud.entry i = some entry)
    (back_to_primary : Bool) (calls : Calls) :
    ∃ stored, (tick back_to_primary cloud calls).entry i = some stored ∧
      (stored = entry ∨ ∃ hops, check_targets cloud.config calls.targetStates = .ok (some hops) ∧
        (calls.routeTables i = .ok () ∧ Readable (cloud.tables entry.route_table_id)) ∧
        stored = { entry with routes := kept hops entry.routes (cloud.tables entry.route_table_id) }) := by
  have hsame (h : (tick back_to_primary cloud calls).config = cloud.config) :
      (tick back_to_primary cloud calls).entry i = some entry := by rwa [Cloud.entry, Cloud.entries, h]
  by_cases hput : calls.put_config
  · obtain hnothing | ⟨hops, route_tables, checked, htargets, hconfig, hall, heffects⟩ :=
      handler_cases back_to_primary cloud calls
    · exact ⟨entry, hsame (by simp [tick, hnothing, Effects.nothing]), Or.inl rfl⟩
    · by_cases hchanged : checked.any CheckedTable.config_changed
      · obtain ⟨_, htables, hget⟩ := Cloud.entry_eq_some.mp hentry
        rw [hconfig] at htables
        cases htables
        have hposition : route_tables.zipIdx[i]? = some (entry, i) := by simp [hget]
        obtain ⟨result, hresult, hfollows⟩ := traversal.getElem?_of_left hall hposition
        refine ⟨result.config_route_table, ?_, ?_⟩
        · simp [Cloud.entry, Cloud.entries, tick, hput, heffects, Effects.of, hchanged, hresult]
        · obtain rfl | ⟨hread, rfl⟩ := hfollows
          · exact Or.inl rfl
          · exact Or.inr ⟨hops, htargets, hread, rfl⟩
      · exact ⟨entry, hsame (by simp [tick, heffects, Effects.of, hchanged]), Or.inl rfl⟩
  · exact ⟨entry, hsame (by simp [tick, hput]), Or.inl rfl⟩

theorem tick_entry_none {cloud : Cloud} {i : ℕ} (hentry : cloud.entry i = none) (back_to_primary : Bool)
    (calls : Calls) : (tick back_to_primary cloud calls).entry i = none := by
  by_cases hput : calls.put_config
  · obtain hnothing | ⟨hops, route_tables, checked, _, hconfig, hall, heffects⟩ :=
      handler_cases back_to_primary cloud calls
    · simpa [Cloud.entry, Cloud.entries, tick, hnothing, Effects.nothing] using hentry
    · by_cases hchanged : checked.any CheckedTable.config_changed
      · have hlength := hall.length_eq
        rw [List.length_zipIdx] at hlength
        simp only [Cloud.entry, Cloud.entries, hconfig, Option.getD_some, List.getElem?_eq_none_iff] at hentry
        simp only [Cloud.entry, Cloud.entries, tick, hput, heffects, Effects.of, hchanged, if_true,
          Option.getD_some, List.getElem?_eq_none_iff, List.length_map]
        omega
      · simpa [Cloud.entry, Cloud.entries, tick, heffects, Effects.of, hchanged] using hentry
  · simpa [Cloud.entry, Cloud.entries, tick, hput] using hentry

/-- Where an entry that a tick has stored comes from. -/
theorem tick_entry_inv {cloud : Cloud} {i : ℕ} {stored : ConfigRouteTable} {back_to_primary : Bool} {calls : Calls}
    (hstored : (tick back_to_primary cloud calls).entry i = some stored) :
    ∃ entry, cloud.entry i = some entry ∧
      (stored = entry ∨ ∃ hops, check_targets cloud.config calls.targetStates = .ok (some hops) ∧
        (calls.routeTables i = .ok () ∧ Readable (cloud.tables entry.route_table_id)) ∧
        stored = { entry with routes := kept hops entry.routes (cloud.tables entry.route_table_id) }) := by
  cases hentry : cloud.entry i with
  | none =>
    rw [tick_entry_none hentry] at hstored
    cases hstored
  | some entry =>
    obtain ⟨same, hsame, hcases⟩ := tick_entry hentry back_to_primary calls
    rw [hstored] at hsame
    cases hsame
    exact ⟨entry, rfl, hcases⟩

/-- A tick writes no field of the configuration but `route_tables`. -/
theorem tick_config (back_to_primary : Bool) (cloud : Cloud) (calls : Calls) :
    ∃ route_tables, (tick back_to_primary cloud calls).config = { cloud.config with route_tables } := by
  by_cases hput : calls.put_config
  · obtain hnothing | ⟨_, _, checked, _, _, _, heffects⟩ := handler_cases back_to_primary cloud calls
    · exact ⟨cloud.config.route_tables, by simp [tick, hnothing, Effects.nothing]⟩
    · by_cases hchanged : checked.any CheckedTable.config_changed
      · exact ⟨_, by simp [tick, hput, heffects, Effects.of, hchanged]; rfl⟩
      · exact ⟨cloud.config.route_tables, by simp [tick, heffects, Effects.of, hchanged]⟩
  · exact ⟨cloud.config.route_tables, by simp [tick, hput]⟩

/-- An invocation without requests changes nothing. -/
theorem tick_of_nothing {back_to_primary : Bool} {cloud : Cloud} {calls : Calls}
    (h : handler back_to_primary cloud calls = .nothing) (hpossible : calls.Possible back_to_primary cloud) :
    tick back_to_primary cloud calls = cloud := by
  have hnone : calls.failover = [] := by
    rw [Calls.Possible, h] at hpossible
    exact List.subperm_nil.mp hpossible
  simp [tick, h, hnone, Effects.nothing]

/-- The list of a table after a series of PATCH requests is that of the last
request for the table, or the old one. -/
theorem foldl_patch (requests : List RouteTable) (tables : String → List StaticRoute) (id : String) :
    (∃ request ∈ requests, request.route_table_id = id ∧ requests.foldl patch tables id = request.routes) ∨
      (∀ request ∈ requests, request.route_table_id ≠ id) ∧ requests.foldl patch tables id = tables id := by
  induction requests generalizing tables with
  | nil => exact Or.inr ⟨by simp, rfl⟩
  | cons first requests ih =>
    rw [List.foldl_cons]
    obtain ⟨request, hmem, hid, hroutes⟩ | ⟨hnone, hsame⟩ := ih (patch tables first)
    · exact Or.inl ⟨request, List.mem_cons_of_mem _ hmem, hid, hroutes⟩
    · by_cases hfirst : first.route_table_id = id
      · subst hfirst
        exact Or.inl ⟨first, List.mem_cons_self, rfl, by rw [hsame, patch, Function.update_self]⟩
      · refine Or.inr ⟨List.forall_mem_cons.mpr ⟨hfirst, hnone⟩, ?_⟩
        rw [hsame, patch, Function.update_of_ne (Ne.symm hfirst)]

/-- A PATCH request belongs to an entry whose live table was read and has a
route to move. -/
theorem request_cases {back_to_primary : Bool} {cloud : Cloud} {calls : Calls} {request : RouteTable}
    (h : request ∈ (handler back_to_primary cloud calls).all_routeTables) :
    ∃ hops i entry, check_targets cloud.config calls.targetStates = .ok (some hops) ∧
      cloud.entry i = some entry ∧ entry.route_table_id = request.route_table_id ∧
      Readable (cloud.tables entry.route_table_id) ∧
      Moves back_to_primary hops entry.routes (cloud.tables entry.route_table_id) ∧
      request.routes = sort_routes
        (moved back_to_primary hops entry.routes (cloud.tables entry.route_table_id)) := by
  obtain hnothing | ⟨hops, route_tables, checked, htargets, hconfig, hall, heffects⟩ :=
    handler_cases back_to_primary cloud calls
  · rw [hnothing] at h
    cases h
  · rw [heffects] at h
    obtain ⟨result, hresult, hmodified⟩ := List.mem_filterMap.mp h
    obtain ⟨⟨entry, i⟩, hentry, hfollows⟩ := traversal.exists_of_mem_right hall hresult
    have hi := List.mem_zipIdx_iff_getElem?.mp hentry
    obtain rfl | ⟨⟨_, hreadable⟩, rfl⟩ := hfollows
    · cases hmodified
    · obtain ⟨hid, hroutes⟩ := CheckedTable.read_modified_eq hmodified
      exact ⟨hops, i, entry, htargets, Cloud.entry_eq_some.mpr ⟨_, hconfig, hi⟩, hid.symm, hreadable,
        CheckedTable.read_modified.mp ⟨request, hmodified⟩, hroutes⟩

/-- What a tick can do to a live table: nothing, or the installation of the
list that a pass over the table leaves. -/
theorem tick_tables {back_to_primary : Bool} {cloud : Cloud} {calls : Calls}
    (hpossible : calls.Possible back_to_primary cloud) (id : String) :
    (tick back_to_primary cloud calls).tables id = cloud.tables id ∨
      ∃ hops i entry, check_targets cloud.config calls.targetStates = .ok (some hops) ∧
        cloud.entry i = some entry ∧ entry.route_table_id = id ∧ Readable (cloud.tables id) ∧
        Moves back_to_primary hops entry.routes (cloud.tables id) ∧
        (tick back_to_primary cloud calls).tables id =
          sort_routes (moved back_to_primary hops entry.routes (cloud.tables id)) := by
  obtain ⟨request, hmem, rfl, hroutes⟩ | ⟨_, hsame⟩ := foldl_patch calls.failover cloud.tables id
  · obtain ⟨hops, i, entry, htargets, hentry, hid, hreadable, hmoves, hlist⟩ :=
      request_cases (hpossible.subset hmem)
    rw [hid] at hreadable hmoves hlist
    exact Or.inr ⟨hops, i, entry, htargets, hentry, hid, hreadable, hmoves, hroutes.trans hlist⟩
  · exact Or.inl hsame

/-- Every route of the configured tables carries a next hop address. -/
def Cloud.Addressed (cloud : Cloud) : Prop :=
  ∀ entry ∈ cloud.entries, ∀ route ∈ cloud.tables entry.route_table_id, route.nextHopAddress ≠ none

instance (cloud : Cloud) : Decidable cloud.Addressed :=
  inferInstanceAs (Decidable (∀ entry ∈ cloud.entries, ∀ route ∈ cloud.tables entry.route_table_id,
    route.nextHopAddress ≠ none))

/-- A tick gives no route without a next hop address. -/
theorem Cloud.Addressed.tick {cloud : Cloud} (h : cloud.Addressed) {back_to_primary : Bool} {calls : Calls}
    (hpossible : calls.Possible back_to_primary cloud) : (tick back_to_primary cloud calls).Addressed := by
  intro stored hstored route hroute
  obtain ⟨i, hi⟩ := List.getElem?_of_mem hstored
  obtain ⟨entry, hentry, hcases⟩ := tick_entry_inv hi
  have hid : stored.route_table_id = entry.route_table_id := by
    obtain rfl | ⟨_, _, _, rfl⟩ := hcases <;> rfl
  have hold := h entry (Cloud.mem_entries hentry)
  rw [hid] at hroute
  obtain hsame | ⟨hops, _, other, _, _, _, _, _, hmoved⟩ := tick_tables hpossible entry.route_table_id
  · rw [hsame] at hroute
    exact hold route hroute
  · rw [hmoved] at hroute
    obtain ⟨before, hbefore, rfl⟩ := List.mem_map.mp ((sort_routes_perm _).subset hroute)
    cases hchoice : reroute back_to_primary hops
      (record hops other.routes (cloud.tables entry.route_table_id)) before with
    | none =>
      rw [rerouted_of_none hchoice]
      exact hold before hbefore
    | some chosen => simp [rerouted_of_some hchoice]

/-- The reports that reach the loop over the route tables stay the same. -/
theorem check_targets_tick (back_to_primary : Bool) (cloud : Cloud) (calls : Calls)
    (targetStates : Answer (Option (List TargetState))) :
    check_targets (tick back_to_primary cloud calls).config targetStates =
      check_targets cloud.config targetStates := by
  obtain ⟨route_tables, hconfig⟩ := tick_config back_to_primary cloud calls
  rw [hconfig]
  rfl

/-- The result of the pass over an entry when its GET succeeds. -/
def CheckedTable.of (back_to_primary : Bool) (hops : NextHops) (cloud : Cloud) (entry : ConfigRouteTable) :
    CheckedTable :=
  if cloud.tables entry.route_table_id = [] then .skip entry
  else .read back_to_primary hops entry (cloud.tables entry.route_table_id)

theorem check_route_table_of_addressed (back_to_primary : Bool) (hops : NextHops) {cloud : Cloud}
    {entry : ConfigRouteTable}
    (haddressed : ∀ route ∈ cloud.tables entry.route_table_id, route.nextHopAddress ≠ none) :
    check_route_table back_to_primary hops (.ok (some (cloud.tables entry.route_table_id))) entry =
      .ok (.of back_to_primary hops cloud entry) := by
  by_cases hempty : cloud.tables entry.route_table_id = []
  · rw [CheckedTable.of, if_pos hempty, hempty, check_route_table]
  · rw [CheckedTable.of, if_neg hempty,
      check_route_table_of_readable back_to_primary hops entry ⟨hempty, haddressed⟩]

/-- The requests of an invocation whose calls all succeed. -/
theorem handler_of_successful {back_to_primary : Bool} {cloud : Cloud} {calls : Calls} {hops : NextHops}
    {route_tables : List ConfigRouteTable} (hcalls : calls.Successful back_to_primary cloud)
    (htargets : check_targets cloud.config calls.targetStates = .ok (some hops))
    (hconfig : cloud.config.route_tables = some route_tables) (haddressed : cloud.Addressed) :
    handler back_to_primary cloud calls =
      .of cloud.config (route_tables.map (.of back_to_primary hops cloud)) := by
  have hchecked : (route_tables.zipIdx.mapM fun x =>
      check_route_table back_to_primary hops ((calls.routeTables x.2).map fun _ =>
        some (cloud.tables x.1.route_table_id)) x.1) =
      .ok (route_tables.zipIdx.map fun x => .of back_to_primary hops cloud x.1) := by
    apply traversal.mapM_eq_ok
    rintro ⟨entry, i⟩ hmem
    rw [hcalls.routeTables, Answer.map]
    have hentry : cloud.entry i = some entry :=
      Cloud.entry_eq_some.mpr ⟨_, hconfig, List.mem_zipIdx_iff_getElem?.mp hmem⟩
    exact check_route_table_of_addressed back_to_primary hops (haddressed entry (Cloud.mem_entries hentry))
  have hfst : (route_tables.zipIdx.map fun x => CheckedTable.of back_to_primary hops cloud x.1) =
      route_tables.map (.of back_to_primary hops cloud) := by
    conv_rhs => rw [← List.zipIdx_map_fst 0 route_tables, List.map_map]
    rfl
  rw [hfst] at hchecked
  simp only [handler, hcalls.get_config, if_true, check_router_statuses, htargets, hconfig, bind, Except.bind]
  rw [hchecked]
  rfl

theorem CheckedTable.of_config_route_table (back_to_primary : Bool) (hops : NextHops) (cloud : Cloud)
    (entry : ConfigRouteTable) :
    (CheckedTable.of back_to_primary hops cloud entry).config_route_table = { entry with
      routes := if cloud.tables entry.route_table_id = [] then entry.routes
        else kept hops entry.routes (cloud.tables entry.route_table_id) } := by
  unfold CheckedTable.of
  split <;> rfl

theorem CheckedTable.of_unchanged {back_to_primary : Bool} {hops : NextHops} {cloud : Cloud}
    {entry : ConfigRouteTable} (h : (CheckedTable.of back_to_primary hops cloud entry).config_changed = false) :
    (CheckedTable.of back_to_primary hops cloud entry).config_route_table = entry := by
  unfold CheckedTable.of at h ⊢
  split
  · rfl
  · next hne =>
    rw [if_neg hne] at h
    rw [CheckedTable.read_config_route_table, CheckedTable.read_of_unchanged h]

theorem CheckedTable.of_modified {back_to_primary : Bool} {hops : NextHops} {cloud : Cloud}
    {entry : ConfigRouteTable} :
    (∃ table, (CheckedTable.of back_to_primary hops cloud entry).modified = some table) ↔
      Moves back_to_primary hops entry.routes (cloud.tables entry.route_table_id) := by
  unfold CheckedTable.of
  split
  · next hempty => simp [hempty, CheckedTable.skip, Moves]
  · exact CheckedTable.read_modified

/-- The configuration after a tick whose calls all succeed. -/
theorem tick_config_of_successful {back_to_primary : Bool} {cloud : Cloud} {calls : Calls} {hops : NextHops}
    {route_tables : List ConfigRouteTable} (hcalls : calls.Successful back_to_primary cloud)
    (htargets : check_targets cloud.config calls.targetStates = .ok (some hops))
    (hconfig : cloud.config.route_tables = some route_tables) (haddressed : cloud.Addressed) :
    (tick back_to_primary cloud calls).config = { cloud.config with
      route_tables := some (route_tables.map fun entry =>
        (CheckedTable.of back_to_primary hops cloud entry).config_route_table) } := by
  have heffects := handler_of_successful hcalls htargets hconfig haddressed
  simp only [tick, hcalls.put_config, if_true, heffects, Effects.of, List.map_map]
  split
  · rfl
  · next hunchanged =>
    have hsame : (route_tables.map fun entry =>
        (CheckedTable.of back_to_primary hops cloud entry).config_route_table) = route_tables := by
      refine (List.map_congr_left fun entry hmem => ?_).trans (List.map_id _)
      apply CheckedTable.of_unchanged
      simpa using fun h => hunchanged (List.any_eq_true.mpr ⟨_, List.mem_map_of_mem hmem, h⟩)
    rw [hsame, ← hconfig, Option.getD_none]

/-- The entries after a tick whose calls all succeed. -/
theorem tick_entry_of_successful {back_to_primary : Bool} {cloud : Cloud} {calls : Calls} {hops : NextHops}
    (hcalls : calls.Successful back_to_primary cloud)
    (htargets : check_targets cloud.config calls.targetStates = .ok (some hops))
    (haddressed : cloud.Addressed) {i : ℕ} {entry : ConfigRouteTable} (hentry : cloud.entry i = some entry) :
    (tick back_to_primary cloud calls).entry i = some { entry with
      routes := if cloud.tables entry.route_table_id = [] then entry.routes
        else kept hops entry.routes (cloud.tables entry.route_table_id) } := by
  obtain ⟨route_tables, hconfig, hget⟩ := Cloud.entry_eq_some.mp hentry
  rw [Cloud.entry, Cloud.entries, tick_config_of_successful hcalls htargets hconfig haddressed, Option.getD_some,
    List.getElem?_map, hget, Option.map_some, CheckedTable.of_config_route_table]

/-- A live table after a tick whose calls all succeed: it is left alone unless
an entry for it has a route to move, and then some such entry decides. -/
theorem tick_tables_of_successful {back_to_primary : Bool} {cloud : Cloud} {calls : Calls} {hops : NextHops}
    (hcalls : calls.Successful back_to_primary cloud)
    (htargets : check_targets cloud.config calls.targetStates = .ok (some hops))
    (haddressed : cloud.Addressed) (id : String) :
    (∃ i entry, cloud.entry i = some entry ∧ entry.route_table_id = id ∧
        Moves back_to_primary hops entry.routes (cloud.tables id) ∧
        (tick back_to_primary cloud calls).tables id =
          sort_routes (moved back_to_primary hops entry.routes (cloud.tables id))) ∨
      (∀ i entry, cloud.entry i = some entry → entry.route_table_id = id →
          ¬ Moves back_to_primary hops entry.routes (cloud.tables id)) ∧
        (tick back_to_primary cloud calls).tables id = cloud.tables id := by
  obtain ⟨request, hmem, rfl, hroutes⟩ | ⟨hnone, hsame⟩ := foldl_patch calls.failover cloud.tables id
  · obtain ⟨other, i, entry, hother, hentry, hid, _, hmoves, hlist⟩ :=
      request_cases (hcalls.failover.subset hmem)
    rw [htargets] at hother
    cases hother
    rw [hid] at hmoves hlist
    exact Or.inl ⟨i, entry, hentry, hid, hmoves, hroutes.trans hlist⟩
  · refine Or.inr ⟨?_, hsame⟩
    rintro i entry hentry rfl hmoves
    obtain ⟨route_tables, hconfig, hget⟩ := Cloud.entry_eq_some.mp hentry
    obtain ⟨request, hrequest⟩ := CheckedTable.of_modified.mpr hmoves
    have hissued : request ∈ (handler back_to_primary cloud calls).all_routeTables := by
      rw [handler_of_successful hcalls htargets hconfig haddressed, Effects.of]
      exact List.mem_filterMap.mpr ⟨_, List.mem_map_of_mem (List.mem_of_getElem? hget), hrequest⟩
    apply hnone request (hcalls.failover.symm.subset hissued)
    rw [CheckedTable.of] at hrequest
    split at hrequest
    · cases hrequest
    · exact (CheckedTable.read_modified_eq hrequest).1

/-- The invocation whose calls all succeed, with the PATCH requests taking effect
in the order in which they are issued. -/
def Calls.succeeding (back_to_primary : Bool) (cloud : Cloud) (targets : List TargetState) : Calls :=
  let calls : Calls :=
    { get_config := true, targetStates := .ok (some targets), routeTables := fun _ => .ok (), failover := [],
      put_config := true }
  { calls with failover := (handler back_to_primary cloud calls).all_routeTables }

theorem Calls.succeeding_successful (back_to_primary : Bool) (cloud : Cloud) (targets : List TargetState) :
    (Calls.succeeding back_to_primary cloud targets).Successful back_to_primary cloud where
  get_config := rfl
  targetStates := ⟨some targets, rfl⟩
  routeTables := fun _ => rfl
  failover := .refl _
  put_config := rfl

/-- The routers of the example in the README, each the backup of the other. -/
def readme_routers : List Router :=
  [⟨some "192.168.1.10", some [⟨some "10.160.1.10", some "10.160.2.10"⟩]⟩,
    ⟨some "192.168.2.10", some [⟨some "10.160.2.10", some "10.160.1.10"⟩]⟩]

def readme_report (first second : TargetStatus) : List TargetState :=
  [⟨"192.168.1.10", first⟩, ⟨"192.168.2.10", second⟩]

def default_route (address : String) : StaticRoute :=
  ⟨"0.0.0.0/0", some (.next_hop_address address), []⟩

/-- The example in the README, with one default route. -/
def readme_cloud (routes : Option Routes) (address : String) : Cloud :=
  { tables := fun _ => [default_route address]
    config :=
      { loadBalancerId := "lb", targetGroupId := "tg"
        route_tables := some [⟨"enp000000000000dmzrt", routes⟩], routers := some readme_routers } }

end solution_library.route_switcher_v2
