import SolutionLibrary.RouteSwitcherV2.Convergence

namespace solution_library.route_switcher_v2

/-- No `own_ip` is configured twice. -/
def Distinct (routers : List Router) : Prop :=
  (routers.flatMap fun router => (router.interfaces.getD []).filterMap fun interface => present interface.own_ip).Nodup

instance (routers : List Router) : Decidable (Distinct routers) :=
  inferInstanceAs (Decidable (List.Nodup _))

/-- The address is an `own_ip` of a router that is reported with such a status. -/
def Reported (status : Finmap fun _ : String => TargetStatus) (routers : List Router) (p : TargetStatus → Prop)
    (address : String) : Prop :=
  ∃ router ∈ routers, (∃ s, router.status status = some s ∧ p s) ∧ router.Owns address

/-- What a tick may do to a route, given the stored dictionary of its table before
and after: it changes no field but the next hop, leaves a hop of no reported
router alone, installs only hops of `HEALTHY` routers, moves a failed hop to a
backup that is up, and a `HEALTHY` one only back to its stored primary. -/
structure Routed (back_to_primary : Bool) (status : Finmap fun _ : String => TargetStatus) (routers : List Router)
    (before after : Option Routes) (route routed : StaticRoute) : Prop where
  fields : ∃ address, routed = route.update address
  frame : (∀ address, route.nextHopAddress = some address → ¬ Reported status routers (fun _ => True) address) →
    routed = route
  healthy : routed ≠ route →
    ∃ address, routed.nextHopAddress = some address ∧ Reported status routers (· = .HEALTHY) address
  failover : ∀ router ∈ routers, (∃ s, router.status status = some s ∧ s ≠ .HEALTHY) →
    ∀ interface ∈ router.interfaces.getD [], ∀ address backup, route.nextHopAddress = some address →
      interface.configured = some (address, backup) →
        ∀ peer ∈ routers, peer.status status = some .HEALTHY →
          ∀ other ∈ peer.interfaces.getD [], ∀ its, other.configured = some (backup, its) →
            routed.nextHopAddress = some backup
  failback : ∀ address, route.nextHopAddress = some address → Reported status routers (· = .HEALTHY) address →
    routed ≠ route → back_to_primary = true ∧
      routed.nextHopAddress = primary after route.destinationPrefix ∧
        ∀ stored, primary before route.destinationPrefix = some stored → routed.nextHopAddress = some stored

/-- What a tick does to a configured table with these live routes: it sends a PATCH
exactly when a route changes, with all the routes. -/
structure Safe (back_to_primary : Bool) (status : Finmap fun _ : String => TargetStatus) (routers : List Router)
    (entry stored : ConfigRouteTable) (routeTable : List StaticRoute) (routed : StaticRoute → StaticRoute)
    (request : Option RouteTable) : Prop where
  patched : request ≠ none ↔ ∃ route ∈ routeTable, routed route ≠ route
  sent : ∀ table, request = some table →
    table.route_table_id = entry.route_table_id ∧ table.routes.Perm (routeTable.map routed)
  routes : ∀ route ∈ routeTable, Routed back_to_primary status routers entry.routes stored.routes route (routed route)

section hops

variable {status : Finmap fun _ : String => TargetStatus} {routers : List Router} {own_ip backup : String}

/-- Interfaces with another `own_ip` leave the backup of an address alone. -/
theorem lookup_foldl_add_interface_of_ne {interfaces : List Interface}
    (h : ∀ interface ∈ interfaces, present interface.own_ip ≠ some own_ip) (hops : Routes) :
    (interfaces.foldl add_interface hops).lookup own_ip = hops.lookup own_ip := by
  induction interfaces generalizing hops with
  | nil => rfl
  | cons interface interfaces ih =>
    obtain ⟨hhead, htail⟩ := List.forall_mem_cons.mp h
    rw [List.foldl_cons, ih htail, add_interface]
    cases hconf : interface.configured with
    | none => rfl
    | some pair =>
      obtain ⟨address, peer⟩ := pair
      have hne : own_ip ≠ address := by
        rintro rfl
        exact hhead (present_eq_some.mpr (Interface.configured_eq_some.mp hconf).1)
      exact Finmap.lookup_insert_of_ne _ hne

/-- When no `own_ip` comes twice, the backup of an address is the one of its
interface. -/
theorem lookup_foldl_add_interface {interfaces : List Interface}
    (hnodup : (interfaces.filterMap fun interface => present interface.own_ip).Nodup) {interface : Interface}
    (hmem : interface ∈ interfaces) (hconf : interface.configured = some (own_ip, backup)) (hops : Routes) :
    (interfaces.foldl add_interface hops).lookup own_ip = some backup := by
  induction interfaces generalizing hops with
  | nil => cases hmem
  | cons head interfaces ih =>
    rw [List.foldl_cons]
    obtain rfl | hmem := List.mem_cons.mp hmem
    · have howns : present interface.own_ip = some own_ip :=
        present_eq_some.mpr (Interface.configured_eq_some.mp hconf).1
      simp only [List.filterMap_cons, howns, List.nodup_cons] at hnodup
      rw [lookup_foldl_add_interface_of_ne, add_interface, hconf, Finmap.lookup_insert]
      exact fun other hother hsame => hnodup.1 (List.mem_filterMap.mpr ⟨other, hother, hsame⟩)
    · refine ih ?_ hmem _
      exact hnodup.sublist ((List.sublist_cons_self head interfaces).filterMap _)

theorem offered_sublist (status : Finmap fun _ : String => TargetStatus) (p : TargetStatus → Bool)
    (routers : List Router) :
    (offered status p routers).Sublist (routers.flatMap fun router => router.interfaces.getD []) := by
  induction routers with
  | nil => exact .slnil
  | cons router routers ih =>
    simp only [offered, List.flatMap_cons]
    refine List.Sublist.append ?_ ih
    split
    · exact .refl _
    · exact List.nil_sublist _

theorem Distinct.lookup_unhealthy (h : Distinct routers) {router : Router} (hrouter : router ∈ routers)
    (hdown : ∃ s, router.status status = some s ∧ s ≠ .HEALTHY) {interface : Interface}
    (hinterface : interface ∈ router.interfaces.getD []) (hconf : interface.configured = some (own_ip, backup)) :
    (nexthops status routers).unhealthy.lookup own_ip = some backup := by
  obtain ⟨s, hs, hne⟩ := hdown
  rw [nexthops_unhealthy]
  refine lookup_foldl_add_interface ?_ (mem_offered.mpr ⟨router, hrouter, ⟨s, hs, by simpa using hne⟩, hinterface⟩)
    hconf ∅
  rw [Distinct, ← List.filterMap_flatMap] at h
  exact h.sublist ((offered_sublist status _ routers).filterMap _)

/-- Two routers with an `own_ip` in common are the same. -/
theorem Distinct.owner_eq (h : Distinct routers) {first second : Router} (hfirst : first ∈ routers)
    (hsecond : second ∈ routers) {address : String} (hown : first.Owns address) (hown' : second.Owns address) :
    first = second := by
  by_contra hne
  have hmem {router : Router} (hrouter : router.Owns address) :
      address ∈ (router.interfaces.getD []).filterMap fun interface => present interface.own_ip := by
    obtain ⟨interface, hinterface, haddress⟩ := hrouter
    exact List.mem_filterMap.mpr ⟨interface, hinterface, haddress⟩
  have hsymm (f : Router → List String) : Std.Symm (Function.onFun List.Disjoint f) := ⟨fun _ _ h => h.symm⟩
  exact (List.nodup_flatMap.mp h).2.forall hfirst hsecond hne (hmem hown) (hmem hown')

theorem reported_of_mem_healthy (h : own_ip ∈ (nexthops status routers).healthy) :
    Reported status routers (· = .HEALTHY) own_ip := by
  obtain ⟨router, hrouter, hup, interface, hinterface, _, hconf⟩ := mem_healthy_iff.mp h
  exact ⟨router, hrouter, ⟨_, hup, rfl⟩, Router.owns_of_configured hinterface hconf⟩

theorem reported_of_known (h : (nexthops status routers).Known own_ip) :
    Reported status routers (fun _ => True) own_ip := by
  obtain ⟨router, hrouter, ⟨s, hs⟩, interface, hinterface, _, hconf⟩ := known_iff.mp h
  exact ⟨router, hrouter, ⟨s, hs, trivial⟩, Router.owns_of_configured hinterface hconf⟩

/-- A hop of a `HEALTHY` router is no unhealthy one. -/
theorem Distinct.notMem_unhealthy (h : Distinct routers) (hup : Reported status routers (· = .HEALTHY) own_ip) :
    own_ip ∉ (nexthops status routers).unhealthy := by
  intro hunhealthy
  obtain ⟨first, hfirst, ⟨_, hs, rfl⟩, hown⟩ := hup
  obtain ⟨second, hsecond, ⟨s, hs', hdown⟩, interface, hinterface, _, hconf⟩ := mem_unhealthy_iff.mp hunhealthy
  obtain rfl := h.owner_eq hfirst hsecond hown (Router.owns_of_configured hinterface hconf)
  cases hs.symm.trans hs'
  exact hdown rfl

end hops

section routes

variable {back_to_primary : Bool} {status : Finmap fun _ : String => TargetStatus} {routers : List Router}

/-- A route changes exactly when the loop installs a next hop for it. -/
theorem Distinct.rerouted_ne_iff (h : Distinct routers) (routes : Option Routes) (route : StaticRoute) :
    rerouted back_to_primary (nexthops status routers) routes route ≠ route ↔
      reroute back_to_primary (nexthops status routers) routes route ≠ none := by
  cases hmove : reroute back_to_primary (nexthops status routers) routes route with
  | none => simp [rerouted_of_none hmove]
  | some chosen =>
    rw [rerouted_of_some hmove]
    refine iff_of_true (fun hsame => ?_) (by simp)
    obtain ⟨address, haddress, hhealthy, hunhealthy | ⟨_, _, _, hne⟩⟩ := reroute_cases.mp hmove
    · rw [← hsame] at haddress
      cases haddress
      exact h.notMem_unhealthy (reported_of_mem_healthy hhealthy) (Finmap.mem_of_lookup_eq_some hunhealthy)
    · rw [← hsame] at haddress
      cases haddress
      exact hne rfl

theorem Distinct.exists_of_rerouted_ne (h : Distinct routers) {routes : Option Routes} {route : StaticRoute}
    (hne : rerouted back_to_primary (nexthops status routers) routes route ≠ route) :
    ∃ chosen, reroute back_to_primary (nexthops status routers) routes route = some chosen ∧
      rerouted back_to_primary (nexthops status routers) routes route = route.update chosen := by
  obtain ⟨chosen, hchosen⟩ := Option.ne_none_iff_exists'.mp ((h.rerouted_ne_iff routes route).mp hne)
  exact ⟨chosen, hchosen, rerouted_of_some hchosen⟩

/-- A pass over a table does to its routes what a tick may do. -/
theorem Distinct.routed (h : Distinct routers) (before : Option Routes) {routeTable : List StaticRoute}
    {route : StaticRoute} (hroute : route ∈ routeTable) (haddress : route.nextHopAddress ≠ none) :
    Routed back_to_primary status routers before (kept (nexthops status routers) before routeTable) route
      (rerouted back_to_primary (nexthops status routers)
        (record (nexthops status routers) before routeTable) route) := by
  obtain ⟨own_ip, hown⟩ := Option.ne_none_iff_exists'.mp haddress
  refine ⟨?_, fun hforeign => ?_, fun hne => ?_, ?_, ?_⟩
  · obtain hsame | hne := eq_or_ne (rerouted back_to_primary (nexthops status routers)
        (record (nexthops status routers) before routeTable) route) route
    · exact ⟨own_ip, hsame.trans (route.update_self hown).symm⟩
    · obtain ⟨chosen, _, heq⟩ := h.exists_of_rerouted_ne hne
      exact ⟨chosen, heq⟩
  · by_contra hne
    obtain ⟨chosen, hchosen, _⟩ := h.exists_of_rerouted_ne hne
    obtain ⟨_, address, haddress, hknown⟩ := reroute_eq_some hchosen
    exact hforeign address haddress (reported_of_known hknown)
  · obtain ⟨chosen, hchosen, heq⟩ := h.exists_of_rerouted_ne hne
    exact ⟨chosen, by rw [heq, StaticRoute.nextHopAddress_update],
      reported_of_mem_healthy (reroute_eq_some hchosen).1⟩
  · intro router hrouter hdown interface hinterface address backup haddress hconf peer hpeer hup other hother its hits
    have hlookup := h.lookup_unhealthy hrouter hdown hinterface hconf
    have hbackup := mem_healthy_iff.mpr ⟨peer, hpeer, hup, other, hother, its, hits⟩
    rw [rerouted_of_some (reroute_cases.mpr ⟨address, haddress, hbackup, Or.inl hlookup⟩)]
    exact StaticRoute.nextHopAddress_update route backup
  · intro address haddress hup hne
    obtain ⟨chosen, hchosen, heq⟩ := h.exists_of_rerouted_ne hne
    obtain ⟨other, hother, _, hunhealthy | ⟨hrec, hback, hprimary, _⟩⟩ := reroute_cases.mp hchosen
    · cases haddress.symm.trans hother
      exact absurd (Finmap.mem_of_lookup_eq_some hunhealthy) (h.notMem_unhealthy hup)
    · rw [heq, StaticRoute.nextHopAddress_update, primary_kept_of_managed (mem_managed_of_recordable hroute hrec)]
      refine ⟨hback, hprimary.symm, fun stored hstored => ?_⟩
      rw [← hprimary, primary_record_of_some hstored]

/-- A route to fail over is in a report that reaches the loop. -/
theorem check_targets_of_reported {config : Config} {targetStates : Answer (Option (List TargetState))}
    {targets : List TargetState} (hreport : targetStates = .ok (some targets))
    (hrouters : config.routers = some routers) {first second : Router}
    (hdown : ∃ s, first.status (targetStatus targets) = some s ∧ s ≠ .HEALTHY)
    (hup : second.status (targetStatus targets) = some .HEALTHY) :
    check_targets config targetStates = .ok (some (nexthops (targetStatus targets) routers)) := by
  obtain ⟨s, hs, hne⟩ := hdown
  obtain ⟨one, _, hone⟩ := Option.bind_eq_some_iff.mp hs
  obtain ⟨two, _, htwo⟩ := Option.bind_eq_some_iff.mp hup
  obtain ⟨target, htarget, rfl⟩ := mem_targetStatus.mp (Finmap.mem_of_lookup_eq_some hone)
  obtain ⟨other, hother, rfl⟩ := mem_targetStatus.mp (Finmap.mem_of_lookup_eq_some htwo)
  have hdiffer : target ≠ other := by
    rintro rfl
    cases hone.symm.trans htwo
    exact hne rfl
  have hpair : [target, other].Subperm targets :=
    List.subperm_of_subset (by simpa using hdiffer) (by simp [htarget, hother])
  exact check_targets_eq_some.mpr ⟨targets, routers, hreport, hpair.length_le, ⟨_, htwo⟩, hrouters, rfl⟩

/-- What a tick may do to a route includes nothing, unless the report asks for a
fail-over. -/
theorem Routed.refl {before after : Option Routes} {route : StaticRoute} (haddress : route.nextHopAddress ≠ none)
    (h : ∀ first ∈ routers, ∀ second ∈ routers, (∃ s, first.status status = some s ∧ s ≠ .HEALTHY) →
      second.status status ≠ some .HEALTHY) :
    Routed back_to_primary status routers before after route route where
  fields := by
    obtain ⟨own_ip, hown⟩ := Option.ne_none_iff_exists'.mp haddress
    exact ⟨own_ip, (route.update_self hown).symm⟩
  frame _ := rfl
  healthy hne := absurd rfl hne
  failover router hrouter hdown _ _ _ _ _ _ peer hpeer hup := absurd hup (h router hrouter peer hpeer hdown)
  failback _ _ _ hne := absurd rfl hne

end routes

section tick

variable {back_to_primary : Bool} {cloud : Cloud} {calls : Calls} {hops : NextHops}

/-- The PATCH requests of an invocation whose calls all succeed. -/
theorem requests_of_successful (hcalls : calls.Successful back_to_primary cloud)
    (hreached : check_targets cloud.config calls.targetStates = .ok (some hops)) (haddressed : cloud.Addressed) :
    (handler back_to_primary cloud calls).all_routeTables =
      cloud.entries.filterMap fun entry => (CheckedTable.of back_to_primary hops cloud entry).modified := by
  cases hconfig : cloud.config.route_tables with
  | none =>
    obtain hnothing | ⟨_, _, _, _, htables, _⟩ := handler_cases back_to_primary cloud calls
    · simp [hnothing, Effects.nothing, Cloud.entries, hconfig]
    · rw [hconfig] at htables
      cases htables
  | some route_tables =>
    rw [handler_of_successful hcalls hreached hconfig haddressed, Effects.of, Cloud.entries, hconfig,
      Option.getD_some, List.filterMap_map]
    rfl

theorem of_modified_eq {entry : ConfigRouteTable} {table : RouteTable}
    (h : (CheckedTable.of back_to_primary hops cloud entry).modified = some table) :
    table.route_table_id = entry.route_table_id ∧
      table.routes.Perm (moved back_to_primary hops entry.routes (cloud.tables entry.route_table_id)) := by
  unfold CheckedTable.of at h
  split at h
  · cases h
  · obtain ⟨hid, hroutes⟩ := CheckedTable.read_modified_eq h
    exact ⟨hid, hroutes ▸ sort_routes_perm _⟩

/-- A report that reaches the loop: each table is treated safely. -/
theorem safe_of_reached {reported : List TargetState} {routers : List Router}
    (hcalls : calls.Successful back_to_primary cloud)
    (hreached : check_targets cloud.config calls.targetStates = .ok (some (nexthops (targetStatus reported) routers)))
    (haddressed : cloud.Addressed) (hdistinct : Distinct routers) {i : ℕ} {entry stored : ConfigRouteTable}
    (hentry : cloud.entry i = some entry) (hstored : (tick back_to_primary cloud calls).entry i = some stored) :
    Safe back_to_primary (targetStatus reported) routers entry stored (cloud.tables entry.route_table_id)
      (rerouted back_to_primary (nexthops (targetStatus reported) routers)
        (record (nexthops (targetStatus reported) routers) entry.routes (cloud.tables entry.route_table_id)))
      (CheckedTable.of back_to_primary (nexthops (targetStatus reported) routers) cloud entry).modified := by
  refine ⟨?_, fun table => of_modified_eq, fun route hroute => ?_⟩
  · simp only [hdistinct.rerouted_ne_iff]
    exact Option.ne_none_iff_exists'.trans CheckedTable.of_modified
  · have hne : cloud.tables entry.route_table_id ≠ [] := List.ne_nil_of_mem hroute
    rw [tick_entry_of_successful hcalls hreached haddressed hentry, if_neg hne] at hstored
    cases hstored
    exact hdistinct.routed entry.routes hroute (haddressed entry (Cloud.mem_entries hentry) route hroute)

/-- A report that asks for a fail-over reaches the loop. -/
theorem not_failover_of_not_reached {targets : Option (List TargetState)} (htargets : calls.targetStates = .ok targets)
    (hreached : ¬ ∃ hops, check_targets cloud.config calls.targetStates = .ok (some hops)) :
    ∀ first ∈ cloud.config.routers.getD [], ∀ second ∈ cloud.config.routers.getD [],
      (∃ s, first.status (targetStatus (targets.getD [])) = some s ∧ s ≠ .HEALTHY) →
        second.status (targetStatus (targets.getD [])) ≠ some .HEALTHY := by
  intro first hfirst second _ hdown hup
  cases hrouters : cloud.config.routers with
  | none => simp [hrouters] at hfirst
  | some routers =>
    cases targets with
    | none =>
      obtain ⟨_, _, hlookup⟩ := Option.bind_eq_some_iff.mp hup
      cases hlookup
    | some targets => exact hreached ⟨_, check_targets_of_reported htargets hrouters hdown hup⟩

end tick

/-- One tick is safe for every configured table, whatever the report. -/
theorem tick_safe {back_to_primary : Bool} {cloud : Cloud} {calls : Calls} {targets : Option (List TargetState)}
    (hcalls : calls.Successful back_to_primary cloud) (htargets : calls.targetStates = .ok targets)
    (haddressed : cloud.Addressed) (hdistinct : Distinct (cloud.config.routers.getD [])) :
    ∃ (routed : ConfigRouteTable → StaticRoute → StaticRoute) (request : ConfigRouteTable → Option RouteTable),
      (handler back_to_primary cloud calls).all_routeTables = cloud.entries.filterMap request ∧
        ∀ i entry stored, cloud.entry i = some entry → (tick back_to_primary cloud calls).entry i = some stored →
          Safe back_to_primary (targetStatus (targets.getD [])) (cloud.config.routers.getD []) entry stored
            (cloud.tables entry.route_table_id) (routed entry) (request entry) := by
  by_cases hreached : ∃ hops, check_targets cloud.config calls.targetStates = .ok (some hops)
  · obtain ⟨hops, hhops⟩ := hreached
    obtain ⟨reported, routers, hreport, _, _, hrouters, rfl⟩ := check_targets_eq_some.mp hhops
    cases htargets.symm.trans hreport
    rw [hrouters] at hdistinct ⊢
    refine ⟨fun entry => rerouted back_to_primary (nexthops (targetStatus reported) routers)
        (record (nexthops (targetStatus reported) routers) entry.routes (cloud.tables entry.route_table_id)),
      _, requests_of_successful hcalls hhops haddressed, fun i entry stored hentry hstored => ?_⟩
    exact safe_of_reached hcalls hhops haddressed hdistinct hentry hstored
  · refine ⟨fun _ => id, fun _ => none, ?_, fun i entry stored hentry _ => ⟨by simp, by simp, fun route hroute => ?_⟩⟩
    · obtain hnothing | ⟨hops, _, _, hhops, _⟩ := handler_cases back_to_primary cloud calls
      · simp [hnothing, Effects.nothing]
      · exact absurd ⟨hops, hhops⟩ hreached
    · exact Routed.refl (haddressed entry (Cloud.mem_entries hentry) route hroute)
        (not_failover_of_not_reached htargets hreached)

/-- The example of the README: the first router fails, and its default route moves
to the second one. -/
theorem tick_safe_readme :
    let cloud := readme_cloud none "10.160.1.10"
    let calls := Calls.succeeding true cloud (readme_report .UNHEALTHY .HEALTHY)
    let entry : ConfigRouteTable := ⟨"enp000000000000dmzrt", none⟩
    ∃ (routed : ConfigRouteTable → StaticRoute → StaticRoute) (request : ConfigRouteTable → Option RouteTable),
      (handler true cloud calls).all_routeTables = cloud.entries.filterMap request ∧
        request entry ≠ none ∧ (routed entry (default_route "10.160.1.10")).nextHopAddress = some "10.160.2.10" := by
  intro cloud calls entry
  obtain ⟨routed, request, hrequests, hsafe⟩ := tick_safe (Calls.succeeding_successful true cloud _) rfl
    (by decide) (by decide)
  have hentry : cloud.entry 0 = some entry := rfl
  obtain ⟨stored, hstored, _⟩ := tick_entry hentry true calls
  have hroute : default_route "10.160.1.10" ∈ cloud.tables "enp000000000000dmzrt" := List.mem_singleton_self _
  have hmoved := ((hsafe 0 entry stored hentry hstored).routes _ hroute).failover
    ⟨some "192.168.1.10", some [⟨some "10.160.1.10", some "10.160.2.10"⟩]⟩ (by decide)
    ⟨.UNHEALTHY, by decide, by decide⟩ _ (List.mem_singleton_self _) "10.160.1.10" "10.160.2.10" rfl rfl
    ⟨some "192.168.2.10", some [⟨some "10.160.2.10", some "10.160.1.10"⟩]⟩ (by decide) (by decide)
    _ (List.mem_singleton_self _) "10.160.1.10" rfl
  refine ⟨routed, request, hrequests, ?_, hmoved⟩
  refine (hsafe 0 entry stored hentry hstored).patched.mpr ⟨_, hroute, fun hsame => ?_⟩
  rw [hsame] at hmoved
  exact absurd hmoved (by decide)

end solution_library.route_switcher_v2
