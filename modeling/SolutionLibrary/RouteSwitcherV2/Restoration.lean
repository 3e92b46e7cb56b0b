import SolutionLibrary.Library.Invariant
import SolutionLibrary.RouteSwitcherV2.Tick

namespace solution_library.route_switcher_v2

/-- The addresses of the fully configured interfaces of the routers. -/
def own_ips (routers : List Router) : List String :=
  routers.flatMap fun router => (router.interfaces.getD []).filterMap fun interface =>
    interface.configured.map Prod.fst

/-- The report lists every router: there is a target for the health-checked
address of each of them. -/
def Lists (routers : List Router) (targets : List TargetState) : Prop :=
  ∀ router ∈ routers, ∃ target ∈ targets, present router.healthchecked_ip = some target.address

/-- The report lists every router as `HEALTHY`. The function refuses a report of
fewer than two targets. -/
structure AllHealthy (routers : List Router) (targets : List TargetState) : Prop where
  two_targets : 2 ≤ targets.length
  healthy : ∀ router ∈ routers, router.status (targetStatus targets) = some .HEALTHY

/-- The next hop of a managed prefix: the address of its first route on a
router. -/
def original (own : List String) (routeTable : List StaticRoute) (destinationPrefix : String) : Option String :=
  routeTable.findSome? fun route =>
    if route.destinationPrefix = destinationPrefix then route.nextHopAddress.filter fun address => address ∈ own
    else none

/-- A live route differs from the one at the start by a detour at most: both
next hops are addresses of routers. -/
def Detour (own : List String) (start live : StaticRoute) : Prop :=
  live = start ∨ ∃ first ∈ own, start.nextHopAddress = some first ∧ ∃ last ∈ own, live = start.update last

/-- The live list consists of detours of the routes at the start, in any
order. -/
def Detoured (own : List String) (start live : List StaticRoute) : Prop :=
  ∃ routeTable, live.Perm routeTable ∧ List.Forall₂ (Detour own) start routeTable

theorem mem_own_ips {routers : List Router} {address : String} :
    address ∈ own_ips routers ↔ ∃ router ∈ routers,
      ∃ interface ∈ router.interfaces.getD [], ∃ backup, interface.configured = some (address, backup) := by
  simp [own_ips]

/-- A report that lists a router has a status for it. -/
theorem Lists.status {routers : List Router} {targets : List TargetState} (h : Lists routers targets)
    {router : Router} (hrouter : router ∈ routers) : ∃ s, router.status (targetStatus targets) = some s := by
  obtain ⟨target, htarget, haddress⟩ := h router hrouter
  obtain ⟨s, hs⟩ := Finmap.mem_iff.mp (mem_targetStatus.mpr ⟨target, htarget, rfl⟩)
  exact ⟨s, by rw [Router.status, haddress, Option.bind_some, hs]⟩

theorem Lists.known_iff_own {routers : List Router} {targets : List TargetState} (h : Lists routers targets)
    (address : String) : (nexthops (targetStatus targets) routers).Known address ↔ address ∈ own_ips routers := by
  rw [known_iff, mem_own_ips]
  refine exists_congr fun router => and_congr_right fun hrouter => ?_
  exact and_iff_right (h.status hrouter)

theorem AllHealthy.lists {routers : List Router} {targets : List TargetState} (h : AllHealthy routers targets) :
    Lists routers targets := by
  intro router hrouter
  obtain ⟨address, haddress, hs⟩ := Option.bind_eq_some_iff.mp (h.healthy router hrouter)
  obtain ⟨target, htarget, rfl⟩ := mem_targetStatus.mp (Finmap.mem_of_lookup_eq_some hs)
  exact ⟨target, htarget, haddress⟩

theorem AllHealthy.mem_healthy_iff_own {routers : List Router} {targets : List TargetState}
    (h : AllHealthy routers targets) (address : String) :
    address ∈ (nexthops (targetStatus targets) routers).healthy ↔ address ∈ own_ips routers := by
  rw [mem_healthy_iff, mem_own_ips]
  refine exists_congr fun router => and_congr_right fun hrouter => ?_
  exact and_iff_right (h.healthy router hrouter)

theorem AllHealthy.notMem_unhealthy {routers : List Router} {targets : List TargetState}
    (h : AllHealthy routers targets) (address : String) :
    address ∉ (nexthops (targetStatus targets) routers).unhealthy := by
  rw [mem_unhealthy_iff]
  rintro ⟨router, hrouter, ⟨s, hs, hne⟩, _⟩
  rw [h.healthy router hrouter] at hs
  cases hs
  exact hne rfl

/-- A report with every router `HEALTHY` leads to the loop over the route
tables. -/
theorem AllHealthy.check_targets_eq {routers : List Router} {targets : List TargetState}
    (h : AllHealthy routers targets) (htwo : 2 ≤ routers.length) {config : Config}
    (hrouters : config.routers = some routers) :
    check_targets config (.ok (some targets)) = .ok (some (nexthops (targetStatus targets) routers)) := by
  have hpos : 0 < routers.length := by omega
  obtain ⟨router, hrouter⟩ := List.exists_mem_of_length_pos hpos
  obtain ⟨address, _, hs⟩ := Option.bind_eq_some_iff.mp (h.healthy router hrouter)
  exact check_targets_eq_some.mpr ⟨targets, routers, rfl, h.two_targets, ⟨address, hs⟩, hrouters, rfl⟩

section detour

variable {own : List String}

theorem Detour.destinationPrefix {start live : StaticRoute} (h : Detour own start live) :
    live.destinationPrefix = start.destinationPrefix := by
  obtain rfl | ⟨_, _, _, last, _, rfl⟩ := h
  · rfl
  · rfl

theorem Detour.nextHopAddress_ne_none {start live : StaticRoute} (h : Detour own start live)
    (hstart : start.nextHopAddress ≠ none) : live.nextHopAddress ≠ none := by
  obtain rfl | ⟨_, _, _, last, _, rfl⟩ := h
  · exact hstart
  · simp

/-- A detour stays on the routers and never leaves or joins them. -/
theorem Detour.on_router_iff {start live : StaticRoute} (h : Detour own start live) :
    (∃ address ∈ own, live.nextHopAddress = some address) ↔
      ∃ address ∈ own, start.nextHopAddress = some address := by
  obtain rfl | ⟨first, hfirst, hstart, last, hlast, rfl⟩ := h
  · rfl
  · exact ⟨fun _ => ⟨first, hfirst, hstart⟩, fun _ => ⟨last, hlast, rfl⟩⟩

/-- Moving a detour from one router to another yields a detour. -/
theorem Detour.of_rerouted {start live : StaticRoute} (h : Detour own start live) {back_to_primary : Bool}
    {hops : NextHops} (hknown : ∀ address, hops.Known address ↔ address ∈ own) (routes : Option Routes) :
    Detour own start (rerouted back_to_primary hops routes live) := by
  cases hchoice : reroute back_to_primary hops routes live with
  | none => rwa [rerouted_of_none hchoice]
  | some chosen =>
    obtain ⟨hhealthy, address, haddress, hold⟩ := reroute_eq_some hchoice
    obtain ⟨first, hfirst, hstart⟩ := h.on_router_iff.mp ⟨address, (hknown address).mp hold, haddress⟩
    have hmoved : rerouted back_to_primary hops routes live = start.update chosen := by
      rw [rerouted_of_some hchoice]
      obtain rfl | ⟨_, _, _, last, _, rfl⟩ := h
      · rfl
      · rfl
    exact Or.inr ⟨first, hfirst, hstart, chosen, (hknown chosen).mp (Or.inl hhealthy), hmoved⟩

theorem Detoured.refl (routeTable : List StaticRoute) : Detoured own routeTable routeTable :=
  ⟨routeTable, .refl _, List.forall₂_same.mpr fun _ _ => Or.inl rfl⟩

theorem Detoured.sort_moved {start live : List StaticRoute} (h : Detoured own start live) {hops : NextHops}
    (hknown : ∀ address, hops.Known address ↔ address ∈ own) (back_to_primary : Bool) (routes : Option Routes) :
    Detoured own start (sort_routes (moved back_to_primary hops routes live)) := by
  obtain ⟨routeTable, hperm, hall⟩ := h
  refine ⟨_, (sort_routes_perm _).trans (hperm.map _), ?_⟩
  rw [List.forall₂_map_right_iff]
  exact hall.imp fun _ _ hdetour => hdetour.of_rerouted hknown _

theorem original_ne_none_iff {routeTable : List StaticRoute} {destinationPrefix : String} :
    original own routeTable destinationPrefix ≠ none ↔ ∃ route ∈ routeTable,
      route.destinationPrefix = destinationPrefix ∧ ∃ address ∈ own, route.nextHopAddress = some address := by
  rw [original, ne_eq, List.findSome?_eq_none_iff]
  push Not
  refine exists_congr fun route => and_congr_right fun _ => ?_
  by_cases hdestination : route.destinationPrefix = destinationPrefix
  · cases haddress : route.nextHopAddress <;> simp [hdestination, Option.filter]
  · simp [hdestination]

/-- When prefixes are distinct, the primary of a managed prefix is the next hop
of its only route. -/
theorem original_eq_of_mem {routeTable : List StaticRoute}
    (hdistinct : (routeTable.map StaticRoute.destinationPrefix).Nodup) {route : StaticRoute}
    (hroute : route ∈ routeTable) {address : String} (haddress : route.nextHopAddress = some address)
    (hown : address ∈ own) : original own routeTable route.destinationPrefix = some address := by
  have hsome : original own routeTable route.destinationPrefix ≠ none :=
    original_ne_none_iff.mpr ⟨route, hroute, rfl, address, hown, haddress⟩
  obtain ⟨found, hfound⟩ := Option.ne_none_iff_exists'.mp hsome
  obtain ⟨other, hother, hchoice⟩ := List.exists_of_findSome?_eq_some hfound
  obtain ⟨hdestination, hfilter⟩ := (Option.ite_none_right_eq_some).mp hchoice
  obtain rfl : other = route := List.inj_on_of_nodup_map hdistinct hother hroute hdestination
  rw [haddress, Option.filter_eq_some_iff] at hfilter
  rw [hfound, ← hfilter.1]

/-- A detour manages the prefixes that were managed at the start. -/
theorem Detoured.mem_managed_iff {start live : List StaticRoute} (h : Detoured own start live) {hops : NextHops}
    (hknown : ∀ address, hops.Known address ↔ address ∈ own) (destinationPrefix : String) :
    destinationPrefix ∈ managed hops live ↔ original own start destinationPrefix ≠ none := by
  obtain ⟨routeTable, hperm, hall⟩ := h
  rw [mem_managed, original_ne_none_iff]
  constructor
  · rintro ⟨route, hmem, rfl, address, haddress, haknown⟩
    obtain ⟨first, hfirst, hdetour⟩ := traversal.exists_of_mem_right hall (hperm.subset hmem)
    exact ⟨first, hfirst, hdetour.destinationPrefix.symm,
      hdetour.on_router_iff.mp ⟨address, (hknown address).mp haknown, haddress⟩⟩
  · rintro ⟨first, hfirst, rfl, hrouter⟩
    obtain ⟨route, hmem, hdetour⟩ := traversal.exists_of_mem_left hall hfirst
    obtain ⟨address, hown, haddress⟩ := hdetour.on_router_iff.mpr hrouter
    exact ⟨route, hperm.symm.subset hmem, hdetour.destinationPrefix, address, haddress,
      (hknown address).mpr hown⟩

/-- Once the recorded primaries are those at the start, no prefix is pruned. -/
theorem Detoured.kept_eq_record {start live : List StaticRoute} (h : Detoured own start live) {hops : NextHops}
    (hknown : ∀ address, hops.Known address ↔ address ∈ own) {routes : Option Routes}
    (hrecord : ∀ destinationPrefix,
      primary (record hops routes live) destinationPrefix = original own start destinationPrefix) :
    kept hops routes live = record hops routes live := by
  rw [kept]
  cases hrec : record hops routes live with
  | none => rfl
  | some recorded =>
    rw [Option.map_some, prune_of_card_eq]
    congr 1
    ext destinationPrefix
    rw [mem_keys_iff, ← hrec, hrecord, h.mem_managed_iff hknown]

/-- A pass over a detour records nothing once the original primaries are
stored. -/
theorem Detoured.record_eq_self {start live : List StaticRoute} (h : Detoured own start live) {hops : NextHops}
    (hknown : ∀ address, hops.Known address ↔ address ∈ own) {routes : Option Routes}
    (hroutes : ∀ destinationPrefix,
      primary routes destinationPrefix = original own start destinationPrefix) :
    record hops routes live = routes := by
  refine record_eq_self_iff.mpr fun route hroute => ?_
  cases hrec : recordable hops route with
  | none => exact Or.inl rfl
  | some address =>
    obtain ⟨haddress, hhealthy, _⟩ := recordable_eq_some.mp hrec
    apply Or.inr
    rw [hroutes, ← h.mem_managed_iff hknown]
    exact mem_managed.mpr ⟨route, hroute, rfl, address, haddress, Or.inl hhealthy⟩

theorem Detoured.kept_eq_self {start live : List StaticRoute} (h : Detoured own start live) {hops : NextHops}
    (hknown : ∀ address, hops.Known address ↔ address ∈ own) {routes : Option Routes}
    (hroutes : ∀ destinationPrefix,
      primary routes destinationPrefix = original own start destinationPrefix) :
    kept hops routes live = routes := by
  have hrecord := h.record_eq_self hknown hroutes
  rw [h.kept_eq_record hknown (by rwa [hrecord]), hrecord]

theorem Detoured.addressed {start live : List StaticRoute} (h : Detoured own start live)
    (hstart : ∀ route ∈ start, route.nextHopAddress ≠ none) : ∀ route ∈ live, route.nextHopAddress ≠ none := by
  obtain ⟨routeTable, hperm, hall⟩ := h
  intro route hroute
  obtain ⟨first, hfirst, hdetour⟩ := traversal.exists_of_mem_right hall (hperm.subset hroute)
  exact hdetour.nextHopAddress_ne_none (hstart first hfirst)

end detour

/-- The first pass over a table, with every router `HEALTHY`, records the next
hop at the start of every managed prefix. -/
theorem primary_record_of_allHealthy {routers : List Router} {targets : List TargetState}
    (h : AllHealthy routers targets) (routeTable : List StaticRoute) (destinationPrefix : String) :
    primary (record (nexthops (targetStatus targets) routers) none routeTable) destinationPrefix =
      original (own_ips routers) routeTable destinationPrefix := by
  rw [primary_record, primary_none, Option.none_or, original]
  simp only [recordable, h.mem_healthy_iff_own, h.notMem_unhealthy, not_false_eq_true, and_true]

/-- With every router `HEALTHY` and the original primaries stored, a pass sends
a detour back to the route at the start. -/
theorem Detour.rerouted_of_allHealthy {routers : List Router} {targets : List TargetState}
    (h : AllHealthy routers targets) {start live : StaticRoute} (hdetour : Detour (own_ips routers) start live)
    {routes : Option Routes}
    (hroutes : ∀ address ∈ own_ips routers, start.nextHopAddress = some address →
      primary routes start.destinationPrefix = some address) :
    rerouted true (nexthops (targetStatus targets) routers) routes live = start := by
  cases hchoice : reroute true (nexthops (targetStatus targets) routers) routes live with
  | none =>
    rw [rerouted_of_none hchoice]
    obtain rfl | ⟨first, hfirst, hstart, last, hlast, rfl⟩ := hdetour
    · rfl
    · by_contra hdiffer
      have hother : last ≠ first := by
        rintro rfl
        exact hdiffer (StaticRoute.update_self hstart)
      have hrec : recordable (nexthops (targetStatus targets) routers) (start.update last) = some last :=
        recordable_eq_some.mpr ⟨rfl, (h.mem_healthy_iff_own last).mpr hlast, h.notMem_unhealthy last⟩
      have hback := reroute_cases.mpr ⟨last, rfl, (h.mem_healthy_iff_own first).mpr hfirst,
        Or.inr ⟨hrec, rfl, hroutes first hfirst hstart, hother⟩⟩
      rw [hchoice] at hback
      cases hback
  | some chosen =>
    obtain ⟨address, haddress, _, hunhealthy | ⟨hrec, _, hprimary, _⟩⟩ := reroute_cases.mp hchoice
    · exact absurd (Finmap.mem_of_lookup_eq_some hunhealthy) (h.notMem_unhealthy address)
    · have hown := (h.mem_healthy_iff_own address).mp (recordable_eq_some.mp hrec).2.1
      obtain ⟨first, hfirst, hstart⟩ := hdetour.on_router_iff.mp ⟨address, hown, haddress⟩
      rw [hdetour.destinationPrefix, hroutes first hfirst hstart] at hprimary
      cases hprimary
      rw [rerouted_of_some hchoice]
      obtain rfl | ⟨_, _, _, last, _, rfl⟩ := hdetour
      · exact StaticRoute.update_self hstart
      · rw [StaticRoute.update_update, StaticRoute.update_self hstart]

/-- With every router `HEALTHY` and the original primaries stored, the loop turns
a detour into the routes at the start. -/
theorem Detoured.map_rerouted_perm {routers : List Router} {targets : List TargetState}
    (h : AllHealthy routers targets) {start live : List StaticRoute}
    (hdetoured : Detoured (own_ips routers) start live)
    (hdistinct : (start.map StaticRoute.destinationPrefix).Nodup) {routes : Option Routes}
    (hroutes : ∀ destinationPrefix,
      primary routes destinationPrefix = original (own_ips routers) start destinationPrefix) :
    (live.map (rerouted true (nexthops (targetStatus targets) routers) routes)).Perm start := by
  obtain ⟨routeTable, hperm, hall⟩ := hdetoured
  refine (hperm.map _).trans (List.Perm.of_eq ?_)
  rw [← List.forall₂_eq_eq_eq, List.forall₂_map_left_iff]
  refine ((List.forall₂_and_left _ _).mpr ⟨fun first hfirst => hfirst, hall⟩).flip.imp fun live first hpair => ?_
  obtain ⟨hfirst, hdetour⟩ := hpair
  apply hdetour.rerouted_of_allHealthy h
  intro address hown haddress
  rw [hroutes, original_eq_of_mem hdistinct hfirst haddress hown]

/-- What holds from the first tick on: the original next hops are stored, and
the live tables are detours of the tables at the start. -/
structure Tracks (routers : List Router) (start cloud : Cloud) : Prop where
  routers_eq : cloud.config.routers = some routers
  entries : ∀ i first, start.entry i = some first → ∃ entry, cloud.entry i = some entry ∧
    entry.route_table_id = first.route_table_id ∧ ∀ destinationPrefix, primary entry.routes destinationPrefix =
      original (own_ips routers) (start.tables first.route_table_id) destinationPrefix
  positions : ∀ i, start.entry i = none → cloud.entry i = none
  tables : ∀ id, Detoured (own_ips routers) (start.tables id) (cloud.tables id)

section tracks

variable {routers : List Router} {start cloud : Cloud}

/-- Every entry is at the position of one at the start. -/
theorem Tracks.entry_inv (h : Tracks routers start cloud) {i : ℕ} {entry : ConfigRouteTable}
    (hentry : cloud.entry i = some entry) :
    ∃ first, start.entry i = some first ∧ entry.route_table_id = first.route_table_id ∧
      ∀ destinationPrefix, primary entry.routes destinationPrefix =
        original (own_ips routers) (start.tables first.route_table_id) destinationPrefix := by
  cases hstart : start.entry i with
  | none =>
    rw [h.positions i hstart] at hentry
    cases hentry
  | some first =>
    obtain ⟨other, hother, hid, hprimary⟩ := h.entries i first hstart
    rw [hentry] at hother
    cases hother
    exact ⟨first, rfl, hid, hprimary⟩

theorem Tracks.primary_eq (h : Tracks routers start cloud) {i : ℕ} {entry : ConfigRouteTable}
    (hentry : cloud.entry i = some entry) (destinationPrefix : String) :
    primary entry.routes destinationPrefix =
      original (own_ips routers) (start.tables entry.route_table_id) destinationPrefix := by
  obtain ⟨first, _, hid, hprimary⟩ := h.entry_inv hentry
  rw [hid, hprimary]

theorem Tracks.addressed (h : Tracks routers start cloud) (hstart : start.Addressed) : cloud.Addressed := by
  intro entry hmem
  obtain ⟨i, hentry⟩ := List.getElem?_of_mem hmem
  obtain ⟨first, hfirst, hid, _⟩ := h.entry_inv hentry
  rw [hid]
  exact (h.tables _).addressed (hstart first (Cloud.mem_entries hfirst))

theorem Tracks.known_iff (h : Tracks routers start cloud) {targetStates : Answer (Option (List TargetState))}
    (hlists : ∀ targets, targetStates = .ok (some targets) → Lists routers targets) {hops : NextHops}
    (htargets : check_targets cloud.config targetStates = .ok (some hops)) (address : String) :
    hops.Known address ↔ address ∈ own_ips routers := by
  obtain ⟨targets, others, hstates, _, _, hothers, rfl⟩ := check_targets_eq_some.mp htargets
  rw [h.routers_eq] at hothers
  cases hothers
  exact (hlists targets hstates).known_iff_own address

/-- Every later tick keeps the invariant, whatever statuses it sees and
whichever of its calls fail, as long as the report lists every router. -/
theorem Tracks.tick (h : Tracks routers start cloud) {back_to_primary : Bool} {calls : Calls}
    (hpossible : calls.Possible back_to_primary cloud)
    (hlists : ∀ targets, calls.targetStates = .ok (some targets) → Lists routers targets) :
    Tracks routers start (tick back_to_primary cloud calls) where
  routers_eq := by
    obtain ⟨route_tables, hconfig⟩ := tick_config back_to_primary cloud calls
    rw [hconfig]
    exact h.routers_eq
  entries := by
    intro i first hfirst
    obtain ⟨entry, hentry, hid, hprimary⟩ := h.entries i first hfirst
    obtain ⟨stored, hstored, hcases⟩ := tick_entry hentry back_to_primary calls
    refine ⟨stored, hstored, ?_⟩
    obtain rfl | ⟨hops, htargets, _, rfl⟩ := hcases
    · exact ⟨hid, hprimary⟩
    · refine ⟨hid, fun destinationPrefix => ?_⟩
      rw [(h.tables entry.route_table_id).kept_eq_self (h.known_iff hlists htargets) (h.primary_eq hentry)]
      exact hprimary destinationPrefix
  positions := fun i hnone => tick_entry_none (h.positions i hnone) back_to_primary calls
  tables := by
    intro id
    obtain hsame | ⟨hops, i, entry, htargets, _, _, _, _, hmoved⟩ := tick_tables hpossible id
    · rw [hsame]
      exact h.tables id
    · rw [hmoved]
      exact (h.tables id).sort_moved (h.known_iff hlists htargets) back_to_primary entry.routes

/-- The first successful tick with every router `HEALTHY` establishes the
invariant. -/
theorem tracks_first (hrouters : start.config.routers = some routers) (htwo : 2 ≤ routers.length)
    (hfresh : ∀ entry ∈ start.entries, entry.routes = none) (haddressed : start.Addressed)
    {back_to_primary : Bool} {calls : Calls} (hcalls : calls.Successful back_to_primary start)
    {targets : List TargetState} (htargets : calls.targetStates = .ok (some targets))
    (hhealthy : AllHealthy routers targets) :
    Tracks routers start (route_switcher_v2.tick back_to_primary start calls) := by
  have hreached := hhealthy.check_targets_eq htwo hrouters
  rw [← htargets] at hreached
  refine ⟨?_, fun i first hfirst => ?_, fun i hnone => tick_entry_none hnone back_to_primary calls, fun id => ?_⟩
  · obtain ⟨route_tables, hconfig⟩ := tick_config back_to_primary start calls
    rw [hconfig]
    exact hrouters
  · refine ⟨_, tick_entry_of_successful hcalls hreached haddressed hfirst, rfl, fun destinationPrefix => ?_⟩
    rw [hfresh first (Cloud.mem_entries hfirst)]
    split
    · next hempty => simp [hempty, original]
    · have hrecord := primary_record_of_allHealthy hhealthy (start.tables first.route_table_id)
      rw [(Detoured.refl _).kept_eq_record hhealthy.lists.known_iff_own hrecord, hrecord]
  · obtain ⟨_, entry, _, _, _, hmoved⟩ | ⟨_, hsame⟩ := tick_tables_of_successful hcalls hreached haddressed id
    · rw [hmoved]
      exact (Detoured.refl _).sort_moved hhealthy.lists.known_iff_own back_to_primary entry.routes
    · rw [hsame]
      exact .refl _

/-- A successful tick with every router `HEALTHY` restores the tables. -/
theorem Tracks.restores (h : Tracks routers start cloud) (htwo : 2 ≤ routers.length)
    (hdistinct : ∀ entry ∈ start.entries, ((start.tables entry.route_table_id).map StaticRoute.destinationPrefix).Nodup)
    (haddressed : start.Addressed) {calls : Calls} (hcalls : calls.Successful true cloud)
    {targets : List TargetState} (htargets : calls.targetStates = .ok (some targets))
    (hhealthy : AllHealthy routers targets) {i : ℕ} {first : ConfigRouteTable}
    (hfirst : start.entry i = some first) :
    ((route_switcher_v2.tick true cloud calls).tables first.route_table_id).Perm
      (start.tables first.route_table_id) := by
  have hreached := hhealthy.check_targets_eq htwo h.routers_eq
  rw [← htargets] at hreached
  have hback {j : ℕ} {entry : ConfigRouteTable} (hentry : cloud.entry j = some entry)
      (hid : entry.route_table_id = first.route_table_id) :
      (moved true (nexthops (targetStatus targets) routers) entry.routes
        (cloud.tables first.route_table_id)).Perm (start.tables first.route_table_id) := by
    have hprimary := h.primary_eq hentry
    rw [hid] at hprimary
    rw [moved, (h.tables _).record_eq_self hhealthy.lists.known_iff_own hprimary]
    exact (h.tables _).map_rerouted_perm hhealthy (hdistinct first (Cloud.mem_entries hfirst)) hprimary
  obtain ⟨j, entry, hentry, hid, _, hmoved⟩ | ⟨hnone, hsame⟩ :=
    tick_tables_of_successful hcalls hreached (h.addressed haddressed) first.route_table_id
  · rw [hmoved]
    exact (sort_routes_perm _).trans (hback hentry hid)
  · obtain ⟨entry, hentry, hid, _⟩ := h.entries i first hfirst
    rw [hsame]
    have hperm := hback hentry hid
    rwa [moved_eq_self (hnone i entry hentry hid)] at hperm

end tracks

/-- A tick whose report lists every router, if it is received. Its calls succeed
or fail in any combination. -/
def LaterTick (back_to_primary : Bool) (routers : List Router) (cloud next : Cloud) : Prop :=
  ∃ calls : Calls, calls.Possible back_to_primary cloud ∧
    (∀ targets, calls.targetStates = .ok (some targets) → Lists routers targets) ∧
    tick back_to_primary cloud calls = next

theorem keeps_tracks (back_to_primary : Bool) (routers : List Router) (start : Cloud) :
    invariant.Keeps (LaterTick back_to_primary routers) (Tracks routers start) := by
  rintro cloud _ htracks ⟨calls, hpossible, hlists, rfl⟩
  exact htracks.tick hpossible hlists

/-- Return to the original routing. After one successful tick with every router
`HEALTHY`, the stored primary of every managed prefix is its next hop at the
start, in every state that later ticks reach. With `BACK_TO_PRIMARY`, every
successful tick with every router `HEALTHY` restores the tables, up to the order
of their routes. Backup peers need not be routers themselves. -/
theorem returns_to_original_routing (back_to_primary : Bool) {start : Cloud} {routers : List Router}
    (hrouters : start.config.routers = some routers) (htwo : 2 ≤ routers.length)
    (hfresh : ∀ entry ∈ start.entries, entry.routes = none)
    (hdistinct : ∀ entry ∈ start.entries, ((start.tables entry.route_table_id).map StaticRoute.destinationPrefix).Nodup)
    (haddressed : start.Addressed) {first : Calls} (hfirst : first.Successful back_to_primary start)
    {targets : List TargetState} (htargets : first.targetStates = .ok (some targets))
    (hhealthy : AllHealthy routers targets) {cloud : Cloud}
    (hrun : Relation.ReflTransGen (LaterTick back_to_primary routers) (tick back_to_primary start first) cloud) :
    (∀ i entry, start.entry i = some entry → ∀ route ∈ start.tables entry.route_table_id,
      ∀ address ∈ own_ips routers, route.nextHopAddress = some address →
        ∃ stored, cloud.entry i = some stored ∧ stored.route_table_id = entry.route_table_id ∧
          primary stored.routes route.destinationPrefix = some address) ∧
    (back_to_primary = true → ∀ calls targets, calls.Successful true cloud →
      calls.targetStates = .ok (some targets) → AllHealthy routers targets → ∀ entry ∈ start.entries,
        ((tick true cloud calls).tables entry.route_table_id).Perm (start.tables entry.route_table_id)) := by
  have htracks : Tracks routers start cloud := (keeps_tracks back_to_primary routers start).run hrun
    (tracks_first hrouters htwo hfresh haddressed hfirst htargets hhealthy)
  constructor
  · intro i entry hentry route hroute address hown haddress
    obtain ⟨stored, hstored, hid, hprimary⟩ := htracks.entries i entry hentry
    refine ⟨stored, hstored, hid, ?_⟩
    rw [hprimary, original_eq_of_mem (hdistinct entry (Cloud.mem_entries hentry)) hroute haddress hown]
  · intro _ calls targets hcalls htargets hhealthy entry hentry
    obtain ⟨i, hi⟩ := List.mem_iff_getElem?.mp hentry
    exact htracks.restores htwo hdistinct haddressed hcalls htargets hhealthy hi

/-- The set-up of the README loses its first router and returns to it. -/
theorem returns_to_original_routing_readme :
    let start := readme_cloud none "10.160.1.10"
    let first := tick true start (.succeeding true start (readme_report .HEALTHY .HEALTHY))
    let failed := tick true first (.succeeding true first (readme_report .UNHEALTHY .HEALTHY))
    failed.tables "enp000000000000dmzrt" = [default_route "10.160.2.10"] ∧
      ((tick true failed (.succeeding true failed (readme_report .HEALTHY .HEALTHY))).tables
        "enp000000000000dmzrt").Perm [default_route "10.160.1.10"] := by
  intro start first failed
  have hhealthy : AllHealthy readme_routers (readme_report .HEALTHY .HEALTHY) :=
    ⟨by decide, by decide⟩
  have hrouters : start.config.routers = some readme_routers := rfl
  have hrun : Relation.ReflTransGen (LaterTick true readme_routers) first failed := by
    refine .single ⟨_, (Calls.succeeding_successful true first _).failover.subperm, fun targets htargets => ?_, rfl⟩
    cases htargets
    unfold Lists
    decide
  have hreturns := returns_to_original_routing true hrouters (by decide) (by decide) (by decide) (by decide)
    (Calls.succeeding_successful true start _) rfl hhealthy hrun
  exact ⟨by decide, hreturns.2 rfl _ _ (Calls.succeeding_successful true failed _) rfl hhealthy
    ⟨"enp000000000000dmzrt", none⟩ (by decide)⟩

end solution_library.route_switcher_v2
