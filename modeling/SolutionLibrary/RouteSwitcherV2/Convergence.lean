import Mathlib.Logic.Relation
import SolutionLibrary.RouteSwitcherV2.Tick

namespace solution_library.route_switcher_v2

/-- Consecutive ticks under one report, with every API call successful and
nobody else at the tables. -/
structure SteadyRun (back_to_primary : Bool) (report : Option (List TargetState)) (clouds : ℕ → Cloud)
    (calls : ℕ → Calls) : Prop where
  successful : ∀ n, (calls n).Successful back_to_primary (clouds n)
  report : ∀ n, (calls n).targetStates = .ok report
  next : ∀ n, clouds (n + 1) = tick back_to_primary (clouds n) (calls n)

/-- No route of the table waits for a failover: a next hop of unhealthy routers
only has no healthy backup. -/
def Drained (hops : NextHops) (routeTable : List StaticRoute) : Prop :=
  ∀ route ∈ routeTable, ∀ address backup_router, route.nextHopAddress = some address →
    hops.unhealthy.lookup address = some backup_router →
      address ∈ hops.healthy ∨ backup_router ∉ hops.healthy

/-- A further pass over the table changes neither the routes nor the stored
dictionary. -/
structure Settled (back_to_primary : Bool) (hops : NextHops) (routes : Option Routes)
    (routeTable : List StaticRoute) : Prop where
  moves : ¬ Moves back_to_primary hops routes routeTable
  kept : kept hops routes routeTable = routes

section table

variable {back_to_primary : Bool} {hops : NextHops} {routes : Option Routes} {routeTable : List StaticRoute}

/-- A pass moves every route that waits for a failover. -/
theorem drained_moved (back_to_primary : Bool) (hops : NextHops) (routes : Option Routes)
    (routeTable : List StaticRoute) : Drained hops (moved back_to_primary hops routes routeTable) := by
  intro after hafter address backup_router haddress hunhealthy
  obtain ⟨route, _, rfl⟩ := List.mem_map.mp hafter
  cases hchoice : reroute back_to_primary hops (record hops routes routeTable) route with
  | some chosen =>
    rw [rerouted_of_some hchoice, StaticRoute.nextHopAddress_update] at haddress
    cases haddress
    exact Or.inl (reroute_eq_some hchoice).1
  | none =>
    rw [rerouted_of_none hchoice] at haddress
    refine Or.inr fun hhealthy => ?_
    have hmove : reroute back_to_primary hops (record hops routes routeTable) route = some backup_router :=
      reroute_cases.mpr ⟨address, haddress, hhealthy, Or.inl hunhealthy⟩
    rw [hchoice] at hmove
    cases hmove

theorem Drained.perm {other : List StaticRoute} (h : Drained hops routeTable) (hperm : other.Perm routeTable) :
    Drained hops other :=
  fun route hroute => h route (hperm.subset hroute)

/-- A route is known before a pass exactly when it is known afterwards. -/
theorem known_rerouted (route : StaticRoute) :
    (∃ address, (rerouted back_to_primary hops routes route).nextHopAddress = some address ∧ hops.Known address) ↔
      ∃ address, route.nextHopAddress = some address ∧ hops.Known address := by
  cases hchoice : reroute back_to_primary hops routes route with
  | none => rw [rerouted_of_none hchoice]
  | some chosen =>
    obtain ⟨hhealthy, hknown⟩ := reroute_eq_some hchoice
    rw [rerouted_of_some hchoice, StaticRoute.nextHopAddress_update]
    exact iff_of_true ⟨chosen, rfl, Or.inl hhealthy⟩ hknown

/-- The managed prefixes outlive a pass. -/
theorem managed_of_moved {after : List StaticRoute}
    (hafter : after.Perm (moved back_to_primary hops routes routeTable)) :
    managed hops after = managed hops routeTable := by
  ext destinationPrefix
  simp only [mem_managed, hafter.mem_iff, moved, List.mem_map, exists_exists_and_eq_and,
    destinationPrefix_rerouted, known_rerouted]

/-- Pruning changes nothing exactly when it is off or finds only managed
prefixes. -/
theorem prune_eq_self_iff {routeTable_prefixes : Finset String} {routes : Routes} :
    prune routeTable_prefixes routes = routes ↔
      routes.keys.card = routeTable_prefixes.card ∨ routes.keys ⊆ routeTable_prefixes := by
  by_cases hcard : routes.keys.card = routeTable_prefixes.card
  · simp [prune_of_card_eq hcard, hcard]
  · rw [prune, if_pos hcard, or_iff_right hcard]
    constructor
    · intro h destinationPrefix hstored
      rw [Finmap.mem_keys, ← h, finmap.mem_eraseAll, Finset.mem_sdiff, not_and, not_not] at hstored
      exact hstored.2 (Finmap.mem_keys.mpr hstored.1)
    · intro hsubset
      refine finmap.eraseAll_eq_self fun destinationPrefix hmem => ?_
      exact absurd (hsubset (Finset.mem_sdiff.mp hmem).1) (Finset.mem_sdiff.mp hmem).2

theorem prune_prune (routeTable_prefixes : Finset String) (routes : Routes) :
    prune routeTable_prefixes (prune routeTable_prefixes routes) = prune routeTable_prefixes routes := by
  rw [prune_eq_self_iff]
  by_cases hcard : routes.keys.card = routeTable_prefixes.card
  · exact Or.inl (by rwa [prune_of_card_eq hcard])
  · refine Or.inr fun destinationPrefix hstored => ?_
    rw [prune, if_pos hcard, Finmap.mem_keys, finmap.mem_eraseAll, Finset.mem_sdiff, not_and, not_not] at hstored
    exact hstored.2 (Finmap.mem_keys.mpr hstored.1)

/-- A pass leaves the primary of a managed prefix as recorded. -/
theorem primary_kept_of_managed {destinationPrefix : String} (h : destinationPrefix ∈ managed hops routeTable) :
    primary (kept hops routes routeTable) destinationPrefix =
      primary (record hops routes routeTable) destinationPrefix := by
  rw [primary_kept, if_neg fun hpruned => hpruned.2 h]

theorem mem_managed_of_recordable {route : StaticRoute} (hroute : route ∈ routeTable) {address : String}
    (hrec : recordable hops route = some address) : route.destinationPrefix ∈ managed hops routeTable := by
  obtain ⟨haddress, hhealthy, _⟩ := recordable_eq_some.mp hrec
  exact mem_managed.mpr ⟨route, hroute, rfl, address, haddress, Or.inl hhealthy⟩

theorem primary_record_ne_none {route : StaticRoute} (hroute : route ∈ routeTable) {address : String}
    (hrec : recordable hops route = some address) :
    primary (record hops routes routeTable) route.destinationPrefix ≠ none := by
  rw [primary_record, ne_eq, Option.or_eq_none_iff, not_and_or, List.findSome?_eq_none_iff]
  push Not
  exact Or.inr ⟨route, hroute, by simp [hrec]⟩

/-- A pass that leaves the stored dictionary alone has recorded nothing. -/
theorem record_eq_self_of_kept (h : kept hops routes routeTable = routes) :
    record hops routes routeTable = routes := by
  refine record_eq_self_iff.mpr fun route hroute => ?_
  cases hrec : recordable hops route with
  | none => exact Or.inl rfl
  | some address =>
    rw [← h, primary_kept_of_managed (mem_managed_of_recordable hroute hrec)]
    exact Or.inr (primary_record_ne_none hroute hrec)

theorem kept_eq_self_iff_of_record (h : record hops routes routeTable = routes) :
    kept hops routes routeTable = routes ↔
      (stored_prefixes routes).card = (managed hops routeTable).card ∨
        stored_prefixes routes ⊆ managed hops routeTable := by
  rw [kept, h]
  cases routes with
  | none => simp [stored_prefixes]
  | some routes => simp [prune_eq_self_iff, stored_prefixes]

/-- Once no route waits for a failover, a pass moves a route on a healthy next
hop only, and to its stored primary. -/
theorem Drained.reroute_eq_some_iff (h : Drained hops routeTable)
    (hseparated : ∀ address ∈ hops.healthy, address ∉ hops.unhealthy) {route : StaticRoute}
    (hroute : route ∈ routeTable) {chosen : String} :
    reroute back_to_primary hops routes route = some chosen ↔
      ∃ address, recordable hops route = some address ∧ back_to_primary ∧ chosen ∈ hops.healthy ∧
        primary routes route.destinationPrefix = some chosen ∧ address ≠ chosen := by
  rw [reroute_cases]
  refine exists_congr fun address => ?_
  constructor
  · rintro ⟨haddress, hhealthy, hunhealthy | ⟨hrec, hsetting, hprimary, hother⟩⟩
    · obtain hboth | hnone := h route hroute address chosen haddress hunhealthy
      · exact absurd (Finmap.mem_of_lookup_eq_some hunhealthy) (hseparated address hboth)
      · exact absurd hhealthy hnone
    · exact ⟨hrec, hsetting, hhealthy, hprimary, hother⟩
  · rintro ⟨hrec, hsetting, hhealthy, hprimary, hother⟩
    exact ⟨(recordable_eq_some.mp hrec).1, hhealthy, Or.inr ⟨hrec, hsetting, hprimary, hother⟩⟩

/-- A route on a healthy next hop after the pass was on one before it. -/
theorem Drained.recordable_rerouted (h : Drained hops routeTable)
    (hseparated : ∀ address ∈ hops.healthy, address ∉ hops.unhealthy) {route : StaticRoute}
    (hroute : route ∈ routeTable) {last : String}
    (hlast : recordable hops (rerouted back_to_primary hops routes route) = some last) :
    ∃ first, recordable hops route = some first := by
  cases hchoice : reroute back_to_primary hops routes route with
  | none => exact ⟨last, by rwa [rerouted_of_none hchoice] at hlast⟩
  | some chosen =>
    obtain ⟨first, hfirst, _⟩ := (h.reroute_eq_some_iff hseparated hroute).mp hchoice
    exact ⟨first, hfirst⟩

theorem exists_of_mem_moved {after : List StaticRoute}
    (hafter : after.Perm (moved back_to_primary hops routes routeTable)) {last : StaticRoute} (hlast : last ∈ after) :
    ∃ route ∈ routeTable, rerouted back_to_primary hops (record hops routes routeTable) route = last :=
  List.mem_map.mp (hafter.subset hlast)

/-- The dictionary after a pass over a drained table has every primary that the
next pass would record. -/
theorem Drained.record_kept (h : Drained hops routeTable)
    (hseparated : ∀ address ∈ hops.healthy, address ∉ hops.unhealthy) {after : List StaticRoute}
    (hafter : after.Perm (moved back_to_primary hops routes routeTable)) :
    record hops (kept hops routes routeTable) after = kept hops routes routeTable := by
  refine record_eq_self_iff.mpr fun last hlast => ?_
  obtain ⟨route, hroute, rfl⟩ := exists_of_mem_moved hafter hlast
  cases hrec : recordable hops (rerouted back_to_primary hops (record hops routes routeTable) route) with
  | none => exact Or.inl rfl
  | some address =>
    obtain ⟨first, hfirst⟩ := h.recordable_rerouted hseparated hroute hrec
    rw [destinationPrefix_rerouted, primary_kept_of_managed (mem_managed_of_recordable hroute hfirst)]
    exact Or.inr (primary_record_ne_none hroute hfirst)

/-- After a pass over a drained table every route is on its stored primary when
the primary is healthy. -/
theorem Drained.not_moves (h : Drained hops routeTable)
    (hseparated : ∀ address ∈ hops.healthy, address ∉ hops.unhealthy) {after : List StaticRoute}
    (hafter : after.Perm (moved back_to_primary hops routes routeTable)) :
    ¬ Moves back_to_primary hops (kept hops routes routeTable) after := by
  rintro ⟨last, hlast, hmove⟩
  rw [h.record_kept hseparated hafter] at hmove
  obtain ⟨chosen, hchosen⟩ := Option.ne_none_iff_exists'.mp hmove
  have hdrained : Drained hops after := (drained_moved back_to_primary hops routes routeTable).perm hafter
  obtain ⟨address, hrec, hsetting, hhealthy, hprimary, hother⟩ :=
    (hdrained.reroute_eq_some_iff hseparated hlast).mp hchosen
  obtain ⟨route, hroute, rfl⟩ := exists_of_mem_moved hafter hlast
  obtain ⟨first, hfirst⟩ := h.recordable_rerouted hseparated hroute hrec
  rw [destinationPrefix_rerouted, primary_kept_of_managed (mem_managed_of_recordable hroute hfirst)] at hprimary
  cases hchoice : reroute back_to_primary hops (record hops routes routeTable) route with
  | none =>
    -- The pass would have moved the route to its primary already.
    rw [rerouted_of_none hchoice] at hrec
    have hagain := (h.reroute_eq_some_iff hseparated hroute).mpr
      ⟨address, hrec, hsetting, hhealthy, hprimary, hother⟩
    rw [hchoice] at hagain
    cases hagain
  | some same =>
    obtain ⟨_, _, _, _, hsame, _⟩ := (h.reroute_eq_some_iff hseparated hroute).mp hchoice
    rw [hprimary] at hsame
    cases hsame
    rw [rerouted_of_some hchoice, recordable_eq_some, StaticRoute.nextHopAddress_update] at hrec
    exact hother (Option.some.inj hrec.1).symm

/-- A pass over a drained table settles it: primaries are recorded for every
route on a healthy next hop, and the routes are on them when they are healthy. -/
theorem Drained.settled (h : Drained hops routeTable)
    (hseparated : ∀ address ∈ hops.healthy, address ∉ hops.unhealthy) {after : List StaticRoute}
    (hafter : after.Perm (moved back_to_primary hops routes routeTable)) :
    Settled back_to_primary hops (kept hops routes routeTable) after where
  moves := h.not_moves hseparated hafter
  kept := by
    rw [route_switcher_v2.kept, h.record_kept hseparated hafter, managed_of_moved hafter, route_switcher_v2.kept,
      Option.map_map]
    exact congrArg (Option.map · _) (funext fun routes => prune_prune _ routes)

end table

/-- Entries for the same table store the same dictionary: there is one stored
dictionary for each table. -/
def Cloud.Coherent (cloud : Cloud) : Prop :=
  ∀ first ∈ cloud.entries, ∀ second ∈ cloud.entries,
    first.route_table_id = second.route_table_id → first.routes = second.routes

section successful

variable {back_to_primary : Bool} {cloud : Cloud} {calls : Calls} {hops : NextHops}

/-- After a successful tick a table is as a pass for one of its entries leaves
it. -/
theorem tick_tables_perm_moved (hcalls : calls.Successful back_to_primary cloud)
    (htargets : check_targets cloud.config calls.targetStates = .ok (some hops)) (haddressed : cloud.Addressed)
    {entry : ConfigRouteTable} (hentry : entry ∈ cloud.entries) :
    ∃ other ∈ cloud.entries, other.route_table_id = entry.route_table_id ∧
      ((tick back_to_primary cloud calls).tables entry.route_table_id).Perm
        (moved back_to_primary hops other.routes (cloud.tables entry.route_table_id)) := by
  obtain ⟨_, other, hother, hid, _, hmoved⟩ | ⟨hstay, hsame⟩ :=
    tick_tables_of_successful hcalls htargets haddressed entry.route_table_id
  · exact ⟨other, Cloud.mem_entries hother, hid, hmoved ▸ sort_routes_perm _⟩
  · obtain ⟨i, hi⟩ := List.getElem?_of_mem hentry
    refine ⟨entry, hentry, rfl, ?_⟩
    rw [hsame, moved_eq_self (hstay i entry hi rfl)]

/-- An entry after a successful tick comes from one for the same table. -/
theorem mem_entries_tick (hcalls : calls.Successful back_to_primary cloud)
    (htargets : check_targets cloud.config calls.targetStates = .ok (some hops)) (haddressed : cloud.Addressed)
    {stored : ConfigRouteTable} (hstored : stored ∈ (tick back_to_primary cloud calls).entries) :
    ∃ entry ∈ cloud.entries, stored = { entry with
      routes := if cloud.tables entry.route_table_id = [] then entry.routes
        else kept hops entry.routes (cloud.tables entry.route_table_id) } := by
  obtain ⟨i, hi⟩ := List.getElem?_of_mem hstored
  obtain ⟨entry, hentry, _⟩ := tick_entry_inv hi
  have hnext := tick_entry_of_successful hcalls htargets haddressed hentry
  rw [Cloud.entry, hi] at hnext
  exact ⟨entry, Cloud.mem_entries hentry, Option.some.inj hnext⟩

/-- After a successful tick no route of a configured table waits for a
failover. -/
theorem drained_tick (hcalls : calls.Successful back_to_primary cloud)
    (htargets : check_targets cloud.config calls.targetStates = .ok (some hops)) (haddressed : cloud.Addressed)
    {stored : ConfigRouteTable} (hstored : stored ∈ (tick back_to_primary cloud calls).entries) :
    Drained hops ((tick back_to_primary cloud calls).tables stored.route_table_id) := by
  obtain ⟨entry, hentry, rfl⟩ := mem_entries_tick hcalls htargets haddressed hstored
  obtain ⟨other, _, _, hmoved⟩ := tick_tables_perm_moved hcalls htargets haddressed hentry
  exact (drained_moved _ _ _ _).perm hmoved

theorem Cloud.Coherent.tick (h : cloud.Coherent) (hcalls : calls.Successful back_to_primary cloud)
    (htargets : check_targets cloud.config calls.targetStates = .ok (some hops)) (haddressed : cloud.Addressed) :
    (tick back_to_primary cloud calls).Coherent := by
  intro first hfirst second hsecond hid
  obtain ⟨one, hone, rfl⟩ := mem_entries_tick hcalls htargets haddressed hfirst
  obtain ⟨two, htwo, rfl⟩ := mem_entries_tick hcalls htargets haddressed hsecond
  simp only at hid ⊢
  rw [hid, h one hone two htwo hid]

/-- A successful tick over drained tables settles them. -/
theorem settled_tick (hcalls : calls.Successful back_to_primary cloud)
    (htargets : check_targets cloud.config calls.targetStates = .ok (some hops)) (haddressed : cloud.Addressed)
    (hcoherent : cloud.Coherent) (hseparated : ∀ address ∈ hops.healthy, address ∉ hops.unhealthy)
    (hdrained : ∀ entry ∈ cloud.entries, Drained hops (cloud.tables entry.route_table_id))
    {stored : ConfigRouteTable} (hstored : stored ∈ (tick back_to_primary cloud calls).entries)
    (hnonempty : (tick back_to_primary cloud calls).tables stored.route_table_id ≠ []) :
    Settled back_to_primary hops stored.routes
      ((tick back_to_primary cloud calls).tables stored.route_table_id) := by
  obtain ⟨entry, hentry, rfl⟩ := mem_entries_tick hcalls htargets haddressed hstored
  obtain ⟨other, hother, hid, hmoved⟩ := tick_tables_perm_moved hcalls htargets haddressed hentry
  rw [hcoherent other hother entry hentry hid] at hmoved
  have hbefore : cloud.tables entry.route_table_id ≠ [] := by
    intro hempty
    rw [hempty] at hmoved
    exact hnonempty hmoved.eq_nil
  simp only [if_neg hbefore]
  exact (hdrained entry hentry).settled hseparated hmoved

/-- A successful tick over settled tables issues no PATCH and stores the
configuration that it has read. -/
theorem tick_of_settled (hcalls : calls.Successful back_to_primary cloud)
    (htargets : check_targets cloud.config calls.targetStates = .ok (some hops)) (haddressed : cloud.Addressed)
    (hsettled : ∀ entry ∈ cloud.entries, cloud.tables entry.route_table_id ≠ [] →
      Settled back_to_primary hops entry.routes (cloud.tables entry.route_table_id)) :
    (handler back_to_primary cloud calls).all_routeTables = [] ∧
      (tick back_to_primary cloud calls).config = cloud.config := by
  constructor
  · refine List.eq_nil_iff_forall_not_mem.mpr fun request hrequest => ?_
    obtain ⟨other, i, entry, hother, hentry, _, hreadable, hmoves, _⟩ := request_cases hrequest
    rw [htargets] at hother
    cases hother
    exact (hsettled entry (Cloud.mem_entries hentry) hreadable.1).moves hmoves
  · cases hconfig : cloud.config.route_tables with
    | none =>
      obtain hnothing | ⟨_, _, _, _, hsome, _, _⟩ := handler_cases back_to_primary cloud calls
      · simp [tick, hnothing, Effects.nothing]
      · rw [hconfig] at hsome
        cases hsome
    | some route_tables =>
      have hsame : (route_tables.map fun entry =>
          (CheckedTable.of back_to_primary hops cloud entry).config_route_table) = route_tables := by
        refine (List.map_congr_left fun entry hmem => ?_).trans (List.map_id _)
        rw [CheckedTable.of_config_route_table]
        split
        · rfl
        · next hnonempty =>
          rw [(hsettled entry (by simp [Cloud.entries, hconfig, hmem]) hnonempty).kept, id]
      rw [tick_config_of_successful hcalls htargets hconfig haddressed, hsame, ← hconfig]

end successful

namespace SteadyRun

variable {back_to_primary : Bool} {report : Option (List TargetState)} {clouds : ℕ → Cloud} {calls : ℕ → Calls}

theorem addressed (hrun : SteadyRun back_to_primary report clouds calls) (h : (clouds 0).Addressed) (n : ℕ) :
    (clouds n).Addressed := by
  induction n with
  | zero => exact h
  | succ n ih =>
    rw [hrun.next]
    exact ih.tick (hrun.successful n).failover.subperm

theorem check_targets_eq (hrun : SteadyRun back_to_primary report clouds calls) (n : ℕ) :
    check_targets (clouds n).config (calls n).targetStates = check_targets (clouds 0).config (.ok report) := by
  rw [hrun.report]
  induction n with
  | zero => rfl
  | succ n ih => rw [hrun.next, check_targets_tick, ih]

variable {hops : NextHops} (hrun : SteadyRun back_to_primary report clouds calls)
  (haddressed : (clouds 0).Addressed) (htargets : check_targets (clouds 0).config (.ok report) = .ok (some hops))

include hrun haddressed htargets

theorem drained (n : ℕ) : ∀ entry ∈ (clouds (n + 1)).entries,
    Drained hops ((clouds (n + 1)).tables entry.route_table_id) := by
  rw [hrun.next]
  intro entry hentry
  exact drained_tick (hrun.successful n) (hrun.check_targets_eq n ▸ htargets) (hrun.addressed haddressed n) hentry

theorem coherent (h : (clouds 0).Coherent) (n : ℕ) : (clouds n).Coherent := by
  induction n with
  | zero => exact h
  | succ n ih =>
    rw [hrun.next]
    exact ih.tick (hrun.successful n) (hrun.check_targets_eq n ▸ htargets) (hrun.addressed haddressed n)

theorem settled (hcoherent : (clouds 0).Coherent)
    (hseparated : ∀ address ∈ hops.healthy, address ∉ hops.unhealthy) (n : ℕ) :
    ∀ entry ∈ (clouds (n + 2)).entries, (clouds (n + 2)).tables entry.route_table_id ≠ [] →
      Settled back_to_primary hops entry.routes ((clouds (n + 2)).tables entry.route_table_id) := by
  rw [hrun.next]
  intro entry hentry hnonempty
  exact settled_tick (hrun.successful (n + 1)) (hrun.check_targets_eq (n + 1) ▸ htargets)
    (hrun.addressed haddressed (n + 1)) (hrun.coherent haddressed htargets hcoherent (n + 1)) hseparated
    (hrun.drained haddressed htargets n) hentry hnonempty

end SteadyRun

/-- The address is the `own_ip` of an interface of the router. -/
def Router.Owns (router : Router) (address : String) : Prop :=
  ∃ interface ∈ router.interfaces.getD [], present interface.own_ip = some address

/-- No address is `own_ip` of both a `HEALTHY` and a non-`HEALTHY` router. -/
def Separated (routers : List Router) (targets : List TargetState) : Prop :=
  ∀ first ∈ routers, ∀ second ∈ routers, first.status (targetStatus targets) = some .HEALTHY →
    (∃ s, second.status (targetStatus targets) = some s ∧ s ≠ .HEALTHY) →
      ∀ address, first.Owns address → ¬ second.Owns address

theorem Router.owns_of_configured {router : Router} {interface : Interface} {address backup : String}
    (hmem : interface ∈ router.interfaces.getD []) (h : interface.configured = some (address, backup)) :
    router.Owns address :=
  ⟨interface, hmem, present_eq_some.mpr (Interface.configured_eq_some.mp h).1⟩

theorem Separated.notMem_unhealthy {routers : List Router} {targets : List TargetState}
    (h : Separated routers targets) {address : String}
    (hhealthy : address ∈ (nexthops (targetStatus targets) routers).healthy) :
    address ∉ (nexthops (targetStatus targets) routers).unhealthy := by
  intro hunhealthy
  obtain ⟨first, hfirst, hup, interface, hinterface, _, hconf⟩ := mem_healthy_iff.mp hhealthy
  obtain ⟨second, hsecond, hdown, other, hother, _, hconf'⟩ := mem_unhealthy_iff.mp hunhealthy
  exact h first hfirst second hsecond hup hdown address (Router.owns_of_configured hinterface hconf)
    (Router.owns_of_configured hother hconf')

/-- Under a report that stays the same, the function is quiet from the third
tick on: it issues no PATCH and stores the configuration that it has read. -/
theorem quiet_from_third_tick {back_to_primary : Bool} {report : Option (List TargetState)} {clouds : ℕ → Cloud}
    {calls : ℕ → Calls} (hrun : SteadyRun back_to_primary report clouds calls)
    (haddressed : (clouds 0).Addressed) (hcoherent : (clouds 0).Coherent)
    (hseparated : ∀ targets routers, report = some targets → (clouds 0).config.routers = some routers →
      Separated routers targets) {n : ℕ} (hn : 2 ≤ n) :
    (handler back_to_primary (clouds n) (calls n)).all_routeTables = [] ∧
      (clouds (n + 1)).config = (clouds n).config := by
  obtain ⟨n, rfl⟩ := Nat.exists_eq_add_of_le' hn
  rw [hrun.next (n + 2)]
  by_cases hreached : ∃ hops, check_targets (clouds 0).config (.ok report) = .ok (some hops)
  · obtain ⟨hops, htargets⟩ := hreached
    obtain ⟨targets, routers, hreport, _, _, hrouters, rfl⟩ := check_targets_eq_some.mp htargets
    have hdisjoint := (hseparated targets routers (by simpa using hreport) hrouters)
    exact tick_of_settled (hrun.successful (n + 2)) (hrun.check_targets_eq (n + 2) ▸ htargets)
      (hrun.addressed haddressed (n + 2))
      (hrun.settled haddressed htargets hcoherent (fun _ => hdisjoint.notMem_unhealthy) n)
  · obtain hnothing | ⟨hops, _, _, htargets, _, _, _⟩ := handler_cases back_to_primary (clouds (n + 2)) (calls (n + 2))
    · simp [tick, hnothing, Effects.nothing]
    · exact absurd ⟨hops, hrun.check_targets_eq (n + 2) ▸ htargets⟩ hreached

/-- The states of a run under one report in which every API call succeeds. -/
def steady (back_to_primary : Bool) (targets : List TargetState) (cloud : Cloud) : ℕ → Cloud
  | 0 => cloud
  | n + 1 => tick back_to_primary (steady back_to_primary targets cloud n)
      (.succeeding back_to_primary (steady back_to_primary targets cloud n) targets)

theorem steadyRun_steady (back_to_primary : Bool) (targets : List TargetState) (cloud : Cloud) :
    SteadyRun back_to_primary (some targets) (steady back_to_primary targets cloud)
      fun n => .succeeding back_to_primary (steady back_to_primary targets cloud n) targets where
  successful _ := Calls.succeeding_successful back_to_primary _ targets
  report _ := rfl
  next _ := rfl

theorem readme_separated (first second : TargetStatus) : Separated readme_routers (readme_report first second) := by
  rintro one hone two htwo hup ⟨s, hs, hdown⟩ address ⟨interface, hinterface, hown⟩ ⟨other, hother, hown'⟩
  simp only [readme_routers, List.mem_cons, List.not_mem_nil, or_false] at hone htwo
  have hdiffer : one ≠ two := by
    rintro rfl
    rw [hup] at hs
    cases hs
    exact hdown rfl
  rcases hone with rfl | rfl <;> rcases htwo with rfl | rfl
  · exact hdiffer rfl
  · obtain rfl := List.mem_singleton.mp hinterface
    obtain rfl := List.mem_singleton.mp hother
    rw [← hown] at hown'
    exact absurd hown' (by decide)
  · obtain rfl := List.mem_singleton.mp hinterface
    obtain rfl := List.mem_singleton.mp hother
    rw [← hown] at hown'
    exact absurd hown' (by decide)
  · exact hdiffer rfl

/-- The table of the README listed twice in the configuration, with two different
stored primaries. -/
def twice_listed : Cloud :=
  let cloud := readme_cloud none "10.160.1.10"
  let stored (address : String) : ConfigRouteTable :=
    ⟨"enp000000000000dmzrt", some ((∅ : Routes).insert "0.0.0.0/0" address)⟩
  { cloud with config := { cloud.config with route_tables := some [stored "10.160.1.10", stored "10.160.2.10"] } }

/-- With every router `HEALTHY`, each of the two entries moves the route back to
its own primary: the third tick issues a PATCH. -/
theorem twice_listed_not_quiet : ¬ ∀ back_to_primary report clouds calls,
    SteadyRun back_to_primary report clouds calls → (clouds 0).Addressed →
      (∀ targets routers, report = some targets → (clouds 0).config.routers = some routers →
        Separated routers targets) → ∀ n, 2 ≤ n →
          (handler back_to_primary (clouds n) (calls n)).all_routeTables = [] ∧
            (clouds (n + 1)).config = (clouds n).config := by
  intro h
  have hquiet := h true _ _ _ (steadyRun_steady true (readme_report .HEALTHY .HEALTHY) twice_listed) (by decide) ?_ 2
    (Nat.le_refl 2)
  · exact absurd hquiet.1 (by decide)
  · rintro targets routers htargets hrouters
    cases htargets
    cases hrouters
    exact readme_separated .HEALTHY .HEALTHY

/-- A stale primary of the README set-up: the first tick fails over, the second
one records and prunes, and the function is quiet. -/
theorem quiet_from_third_tick_readme :
    let start := readme_cloud (some ((∅ : Routes).insert "10.0.0.0/8" "10.160.9.10")) "10.160.1.10"
    let clouds := steady true (readme_report .UNHEALTHY .HEALTHY) start
    let third := Calls.succeeding true (clouds 2) (readme_report .UNHEALTHY .HEALTHY)
    (handler true (clouds 2) third).all_routeTables = [] ∧ (clouds 3).config = (clouds 2).config := by
  intro start clouds third
  refine quiet_from_third_tick (steadyRun_steady true _ start) (by decide) ?_ ?_ (Nat.le_refl 2)
  · intro first hfirst second hsecond _
    rw [List.mem_singleton.mp hfirst, List.mem_singleton.mp hsecond]
  · rintro targets routers htargets hrouters
    cases htargets
    cases hrouters
    exact readme_separated .UNHEALTHY .HEALTHY

end solution_library.route_switcher_v2
