import SolutionLibrary.RouteSwitcherV2.NextHops

namespace solution_library.route_switcher_v2

/-- Variables of the loop over the routes of one table. `routes` is the stored
dictionary of the table, `none` while it has no key `routes`. The address in
`routeTable_changes` is the latest `next_hop`, `none` while not `modified`. -/
structure RouteLoop where
  routes : Option Routes
  routeTable_prefixes : Finset String
  routeTable_changes : Option String
  config_changed : Bool

/-- One pass of the loop over `routeTable`, with the route as it is left. -/
def check_route (back_to_primary : Bool) (hops : NextHops) (ip_route : StaticRoute) (loop : RouteLoop) :
    Except Exn (StaticRoute × RouteLoop) :=
  match ip_route.nextHopAddress with
  | none => .error (.keyError "nextHopAddress")
  | some address =>
    if hops.Known address then
      let loop := { loop with
        routeTable_prefixes := insert ip_route.destinationPrefix loop.routeTable_prefixes }
      match hops.unhealthy.lookup address with
      | some backup_router =>
        if backup_router ∈ hops.healthy then
          .ok (ip_route.update backup_router, { loop with routeTable_changes := some backup_router })
        else
          .ok (ip_route, loop)
      | none =>
        match loop.routes with
        | some routes =>
          match routes.lookup ip_route.destinationPrefix with
          | some primary_router =>
            if back_to_primary ∧ primary_router ∈ hops.healthy ∧ address ≠ primary_router then
              .ok (ip_route.update primary_router, { loop with routeTable_changes := some primary_router })
            else
              .ok (ip_route, loop)
          | none =>
            .ok (ip_route, { loop with
              routes := some (routes.insert ip_route.destinationPrefix address), config_changed := true })
        | none =>
          .ok (ip_route, { loop with
            routes := some ((∅ : Routes).insert ip_route.destinationPrefix address), config_changed := true })
    else
      .ok (ip_route, loop)

def check_routes (back_to_primary : Bool) (hops : NextHops) :
    List StaticRoute → RouteLoop → Except Exn (List StaticRoute × RouteLoop)
  | [], loop => .ok ([], loop)
  | ip_route :: routeTable, loop => do
    let (ip_route, loop) ← check_route back_to_primary hops ip_route loop
    let (routeTable, loop) ← check_routes back_to_primary hops routeTable loop
    .ok (ip_route :: routeTable, loop)

/-- The stored primary next hop of a prefix. -/
def primary (routes : Option Routes) (destinationPrefix : String) : Option String :=
  routes.bind fun routes => routes.lookup destinationPrefix

/-- The next hop that the loop installs for a route, if any: the backup of an
unhealthy hop when the backup is healthy, the stored primary of a healthy hop
when the primary is healthy and differs. -/
def reroute (back_to_primary : Bool) (hops : NextHops) (routes : Option Routes) (route : StaticRoute) :
    Option String :=
  route.nextHopAddress.bind fun address =>
    match hops.unhealthy.lookup address with
    | some backup_router => if backup_router ∈ hops.healthy then some backup_router else none
    | none =>
      if back_to_primary ∧ address ∈ hops.healthy then
        (primary routes route.destinationPrefix).filter fun primary_router =>
          primary_router ∈ hops.healthy ∧ address ≠ primary_router
      else none

def rerouted (back_to_primary : Bool) (hops : NextHops) (routes : Option Routes) (route : StaticRoute) :
    StaticRoute :=
  (reroute back_to_primary hops routes route).elim route route.update

/-- The address that the loop stores for a route without a stored primary. -/
def recordable (hops : NextHops) (route : StaticRoute) : Option String :=
  route.nextHopAddress.filter fun address => address ∈ hops.healthy ∧ address ∉ hops.unhealthy

def record_route (hops : NextHops) (routes : Option Routes) (route : StaticRoute) : Option Routes :=
  match recordable hops route, primary routes route.destinationPrefix with
  | some address, none => some ((routes.getD ∅).insert route.destinationPrefix address)
  | _, _ => routes

/-- The stored dictionary after the loop, before pruning. -/
def record (hops : NextHops) (routes : Option Routes) (routeTable : List StaticRoute) : Option Routes :=
  routeTable.foldl (record_route hops) routes

/-- Prefixes of the routes whose next hop belongs to a reported router. -/
def managed (hops : NextHops) (routeTable : List StaticRoute) : Finset String :=
  ((routeTable.filter fun route => route.nextHopAddress.any (hops.Known ·)).map
    StaticRoute.destinationPrefix).toFinset

@[simp] theorem primary_none (destinationPrefix : String) : primary none destinationPrefix = none := rfl

@[simp] theorem primary_some (routes : Routes) (destinationPrefix : String) :
    primary (some routes) destinationPrefix = routes.lookup destinationPrefix := rfl

theorem recordable_eq_some {hops : NextHops} {route : StaticRoute} {address : String} :
    recordable hops route = some address ↔
      route.nextHopAddress = some address ∧ address ∈ hops.healthy ∧ address ∉ hops.unhealthy := by
  simp [recordable, Option.filter_eq_some_iff]

@[simp] theorem destinationPrefix_rerouted (back_to_primary : Bool) (hops : NextHops)
    (routes : Option Routes) (route : StaticRoute) :
    (rerouted back_to_primary hops routes route).destinationPrefix = route.destinationPrefix := by
  unfold rerouted
  cases reroute back_to_primary hops routes route <;> rfl

theorem record_route_of_recordable_none {hops : NextHops} {route : StaticRoute} (routes : Option Routes)
    (h : recordable hops route = none) : record_route hops routes route = routes := by
  simp [record_route, h]

theorem record_route_of_primary {hops : NextHops} {route : StaticRoute} {routes : Option Routes}
    {address : String} (h : primary routes route.destinationPrefix = some address) :
    record_route hops routes route = routes := by
  simp [record_route, h]

/-- Visiting a route adds its own prefix at most, and never replaces a stored
primary. -/
theorem primary_record_route (hops : NextHops) (routes : Option Routes) (route : StaticRoute)
    (destinationPrefix : String) :
    primary (record_route hops routes route) destinationPrefix =
      (primary routes destinationPrefix).or
        (if route.destinationPrefix = destinationPrefix then recordable hops route else none) := by
  cases hrec : recordable hops route with
  | none => simp [record_route_of_recordable_none routes hrec]
  | some address =>
    cases hprim : primary routes route.destinationPrefix with
    | some stored =>
      rw [record_route_of_primary hprim]
      by_cases heq : route.destinationPrefix = destinationPrefix
      · subst heq
        simp [hprim]
      · simp [heq]
    | none =>
      simp only [record_route, hrec, hprim, primary_some]
      by_cases heq : route.destinationPrefix = destinationPrefix
      · subst heq
        simp [hprim]
      · rw [Finmap.lookup_insert_of_ne _ (Ne.symm heq)]
        cases routes <;> simp [heq]

/-- A stored primary survives the loop, and a prefix without one obtains the
address of its first route on a healthy next hop. -/
theorem primary_record (hops : NextHops) (routes : Option Routes) (routeTable : List StaticRoute)
    (destinationPrefix : String) :
    primary (record hops routes routeTable) destinationPrefix =
      (primary routes destinationPrefix).or (routeTable.findSome? fun route =>
        if route.destinationPrefix = destinationPrefix then recordable hops route else none) := by
  induction routeTable generalizing routes with
  | nil => simp [record]
  | cons route routeTable ih =>
    rw [record, List.foldl_cons, ← record, ih, primary_record_route, List.findSome?_cons, Option.or_assoc]
    cases (if route.destinationPrefix = destinationPrefix then recordable hops route else none) <;> simp

/-- The loop stores nothing exactly when every route on a healthy next hop has a
stored primary already. -/
theorem record_eq_self_iff {hops : NextHops} {routes : Option Routes} {routeTable : List StaticRoute} :
    record hops routes routeTable = routes ↔
      ∀ route ∈ routeTable, recordable hops route = none ∨ primary routes route.destinationPrefix ≠ none := by
  constructor
  · intro h route hmem
    by_contra hnot
    push Not at hnot
    obtain ⟨hrec, hprim⟩ := hnot
    have hsame := primary_record hops routes routeTable route.destinationPrefix
    rw [h, hprim, Option.none_or, eq_comm, List.findSome?_eq_none_iff] at hsame
    exact hrec (by simpa using hsame route hmem)
  · intro h
    induction routeTable with
    | nil => rfl
    | cons route routeTable ih =>
      have hroute : record_route hops routes route = routes := by
        obtain hrec | hprim := h route List.mem_cons_self
        · exact record_route_of_recordable_none routes hrec
        · obtain ⟨address, haddress⟩ := Option.ne_none_iff_exists'.mp hprim
          exact record_route_of_primary haddress
      rw [record, List.foldl_cons, hroute, ← record]
      exact ih fun other hmem => h other (List.mem_cons_of_mem _ hmem)

theorem record_cons_ne {hops : NextHops} {routes : Option Routes} {route : StaticRoute}
    (h : record_route hops routes route ≠ routes) (routeTable : List StaticRoute) :
    record hops (record_route hops routes route) routeTable ≠ routes := by
  intro hsame
  have hall := record_eq_self_iff.mp (show record hops routes (route :: routeTable) = routes from hsame)
  apply h
  have hroute : record hops routes [route] = routes :=
    record_eq_self_iff.mpr (by simpa using hall route List.mem_cons_self)
  exact hroute

theorem primary_record_of_some {hops : NextHops} {routes : Option Routes} {routeTable : List StaticRoute}
    {destinationPrefix address : String} (h : primary routes destinationPrefix = some address) :
    primary (record hops routes routeTable) destinationPrefix = some address := by
  rw [primary_record, h, Option.some_or]

/-- The choice for a route reads no stored primary but the one of its own
prefix, and none at all unless the route is on a healthy next hop. -/
theorem reroute_congr {back_to_primary : Bool} {hops : NextHops} {first second : Option Routes}
    {route : StaticRoute}
    (h : ∀ address, recordable hops route = some address →
      primary first route.destinationPrefix = primary second route.destinationPrefix) :
    reroute back_to_primary hops first route = reroute back_to_primary hops second route := by
  unfold reroute
  cases haddress : route.nextHopAddress with
  | none => rfl
  | some address =>
    simp only [Option.bind_some]
    cases hunhealthy : hops.unhealthy.lookup address with
    | some backup_router => rfl
    | none =>
      by_cases hhealthy : address ∈ hops.healthy
      · have hrec : recordable hops route = some address :=
          recordable_eq_some.mpr ⟨haddress, hhealthy, Finmap.lookup_eq_none.mp hunhealthy⟩
        rw [h address hrec]
      · simp [hhealthy]

/-- Later visits do not affect the choice made for a visited route. -/
theorem reroute_record_record_route (back_to_primary : Bool) (hops : NextHops) (routes : Option Routes)
    (route : StaticRoute) (rest : List StaticRoute) :
    reroute back_to_primary hops (record hops (record_route hops routes route) rest) route =
      reroute back_to_primary hops (record_route hops routes route) route := by
  apply reroute_congr
  intro address hrec
  have hstored : ∃ stored, primary (record_route hops routes route) route.destinationPrefix = some stored := by
    rw [primary_record_route, if_pos rfl, hrec]
    cases primary routes route.destinationPrefix <;> simp
  obtain ⟨stored, hstored⟩ := hstored
  rw [hstored, primary_record_of_some hstored]

/-- A visit that inserts the prefix of the route itself never moves the route:
its next hop is the primary just stored. -/
theorem reroute_record_route_of_primary_none {back_to_primary : Bool} {hops : NextHops}
    {routes : Option Routes} {route : StaticRoute} {address : String}
    (hrec : recordable hops route = some address) (hprim : primary routes route.destinationPrefix = none) :
    reroute back_to_primary hops (record_route hops routes route) route = none := by
  obtain ⟨haddress, _, hunhealthy⟩ := recordable_eq_some.mp hrec
  have hstored : primary (record_route hops routes route) route.destinationPrefix = some address := by
    rw [primary_record_route, if_pos rfl, hprim, hrec, Option.none_or]
  simp [reroute, haddress, Finmap.lookup_eq_none.mpr hunhealthy, hstored, Option.filter]

theorem record_route_of_primary_none {hops : NextHops} {route : StaticRoute} {routes : Option Routes}
    {address : String} (hrec : recordable hops route = some address)
    (hprim : primary routes route.destinationPrefix = none) :
    record_route hops routes route = some ((routes.getD ∅).insert route.destinationPrefix address) := by
  simp [record_route, hrec, hprim]

theorem record_route_ne {hops : NextHops} {route : StaticRoute} {routes : Option Routes}
    {address : String} (hrec : recordable hops route = some address)
    (hprim : primary routes route.destinationPrefix = none) : record_route hops routes route ≠ routes := by
  intro h
  have hstored := primary_record_route hops routes route route.destinationPrefix
  rw [h, hprim, if_pos rfl, hrec] at hstored
  cases hstored

theorem managed_singleton {hops : NextHops} {route : StaticRoute} {address : String}
    (haddress : route.nextHopAddress = some address) :
    managed hops [route] = if hops.Known address then {route.destinationPrefix} else ∅ := by
  by_cases hknown : hops.Known address <;> simp [managed, haddress, hknown]

/-- One visit in closed form. -/
theorem check_route_eq (back_to_primary : Bool) (hops : NextHops) {ip_route : StaticRoute} {address : String}
    (haddress : ip_route.nextHopAddress = some address) (loop : RouteLoop) :
    check_route back_to_primary hops ip_route loop =
      .ok (rerouted back_to_primary hops (record_route hops loop.routes ip_route) ip_route,
        { routes := record_route hops loop.routes ip_route
          routeTable_prefixes := loop.routeTable_prefixes ∪ managed hops [ip_route]
          routeTable_changes :=
            (reroute back_to_primary hops (record_route hops loop.routes ip_route) ip_route).or
              loop.routeTable_changes
          config_changed := loop.config_changed || record_route hops loop.routes ip_route ≠ loop.routes }) := by
  obtain ⟨routes, prefixes, changes, changed⟩ := loop
  simp only [check_route, haddress, managed_singleton haddress]
  by_cases hknown : hops.Known address
  · simp only [if_pos hknown]
    cases hunhealthy : hops.unhealthy.lookup address with
    | some backup_router =>
      have hrec : recordable hops ip_route = none := by
        simp [recordable, haddress, Finmap.mem_of_lookup_eq_some hunhealthy]
      simp only [record_route_of_recordable_none routes hrec]
      by_cases hbackup : backup_router ∈ hops.healthy <;>
        simp [reroute, rerouted, haddress, hunhealthy, hbackup]
    | none =>
      have hhealthy : address ∈ hops.healthy :=
        hknown.resolve_right (Finmap.lookup_eq_none.mp hunhealthy)
      have hrec : recordable hops ip_route = some address :=
        recordable_eq_some.mpr ⟨haddress, hhealthy, Finmap.lookup_eq_none.mp hunhealthy⟩
      cases hprim : primary routes ip_route.destinationPrefix with
      | none =>
        have hmove : reroute back_to_primary hops (record_route hops routes ip_route) ip_route = none :=
          reroute_record_route_of_primary_none hrec hprim
        have hne := record_route_ne hrec hprim
        rw [rerouted, hmove]
        rw [record_route_of_primary_none hrec hprim] at hne ⊢
        cases routes with
        | none => simp
        | some routes =>
          rw [primary_some] at hprim
          have hchanged : routes.insert ip_route.destinationPrefix address ≠ routes := by simpa using hne
          simp [hprim, hchanged]
      | some primary_router =>
        rw [record_route_of_primary hprim]
        cases routes with
        | none => cases hprim
        | some routes =>
          rw [primary_some] at hprim
          by_cases hback : back_to_primary ∧ primary_router ∈ hops.healthy ∧ address ≠ primary_router
          · obtain ⟨hsetting, hmain, hother⟩ := hback
            simp [reroute, rerouted, haddress, hunhealthy, hhealthy, hprim, hsetting, hmain, hother,
              Option.filter]
          · have hstay : reroute back_to_primary hops (some routes) ip_route = none := by
              simp only [reroute, haddress, Option.bind_some, hunhealthy, primary_some, hprim]
              split
              · next h => simpa [Option.filter, h.1] using hback
              · rfl
            simp [rerouted, hstay, hprim, hback]
  · have hhealthy : address ∉ hops.healthy := fun h => hknown (Or.inl h)
    have hunhealthy : address ∉ hops.unhealthy := fun h => hknown (Or.inr h)
    have hrec : recordable hops ip_route = none := by simp [recordable, haddress, hhealthy]
    simp only [record_route_of_recordable_none routes hrec]
    simp [reroute, rerouted, haddress, hknown, hhealthy, Finmap.lookup_eq_none.mpr hunhealthy]

theorem managed_cons (hops : NextHops) (route : StaticRoute) (routeTable : List StaticRoute) :
    managed hops (route :: routeTable) = managed hops [route] ∪ managed hops routeTable := by
  by_cases hknown : route.nextHopAddress.any (hops.Known ·) <;> simp [managed, hknown]

theorem mem_managed {hops : NextHops} {routeTable : List StaticRoute} {destinationPrefix : String} :
    destinationPrefix ∈ managed hops routeTable ↔ ∃ route ∈ routeTable,
      route.destinationPrefix = destinationPrefix ∧
        ∃ address, route.nextHopAddress = some address ∧ hops.Known address := by
  simp only [managed, List.mem_toFinset, List.mem_map, List.mem_filter]
  constructor
  · rintro ⟨route, ⟨hmem, hany⟩, rfl⟩
    cases haddress : route.nextHopAddress with
    | none => simp [haddress] at hany
    | some address => exact ⟨route, hmem, rfl, address, haddress, by simpa [haddress] using hany⟩
  · rintro ⟨route, hmem, rfl, address, haddress, hknown⟩
    exact ⟨route, ⟨hmem, by simp [haddress, hknown]⟩, rfl⟩

/-- The loop over the routes in closed form, when every route carries a next
hop address. -/
theorem check_routes_eq (back_to_primary : Bool) (hops : NextHops) {routeTable : List StaticRoute}
    (haddresses : ∀ route ∈ routeTable, route.nextHopAddress ≠ none) (loop : RouteLoop) :
    check_routes back_to_primary hops routeTable loop =
      .ok (routeTable.map (rerouted back_to_primary hops (record hops loop.routes routeTable)),
        { routes := record hops loop.routes routeTable
          routeTable_prefixes := loop.routeTable_prefixes ∪ managed hops routeTable
          routeTable_changes := routeTable.foldl (fun changes route =>
            (reroute back_to_primary hops (record hops loop.routes routeTable) route).or changes)
              loop.routeTable_changes
          config_changed := loop.config_changed || record hops loop.routes routeTable ≠ loop.routes }) := by
  induction routeTable generalizing loop with
  | nil => simp [check_routes, record, managed]
  | cons ip_route routeTable ih =>
    obtain ⟨address, haddress⟩ := Option.ne_none_iff_exists'.mp (haddresses ip_route List.mem_cons_self)
    have hstable := reroute_record_record_route back_to_primary hops loop.routes ip_route routeTable
    have hrec : record hops loop.routes (ip_route :: routeTable) =
        record hops (record_route hops loop.routes ip_route) routeTable := rfl
    rw [check_routes, check_route_eq back_to_primary hops haddress loop]
    simp only [bind, Except.bind]
    rw [ih fun route hmem => haddresses route (List.mem_cons_of_mem _ hmem)]
    rw [hrec, managed_cons hops ip_route routeTable]
    simp only [List.map_cons, List.foldl_cons, rerouted, hstable, Finset.union_assoc]
    by_cases hsame : record_route hops loop.routes ip_route = loop.routes
    · simp [hsame]
    · simp [hsame, record_cons_ne hsame routeTable]

/-- A route without a next hop address ends the invocation, whatever precedes
it in the table. -/
theorem check_routes_error (back_to_primary : Bool) (hops : NextHops) {routeTable : List StaticRoute}
    (h : ∃ route ∈ routeTable, route.nextHopAddress = none) (loop : RouteLoop) :
    check_routes back_to_primary hops routeTable loop = .error (.keyError "nextHopAddress") := by
  induction routeTable generalizing loop with
  | nil => simp at h
  | cons ip_route routeTable ih =>
    cases haddress : ip_route.nextHopAddress with
    | none => simp [check_routes, check_route, haddress, bind, Except.bind]
    | some address =>
      have hrest : ∃ route ∈ routeTable, route.nextHopAddress = none := by
        obtain ⟨route, hmem, hnone⟩ := h
        obtain rfl | hmem := List.mem_cons.mp hmem
        · simp [haddress] at hnone
        · exact ⟨route, hmem, hnone⟩
      rw [check_routes, check_route_eq back_to_primary hops haddress loop]
      simp only [bind, Except.bind, ih hrest]

/-- `routeTable_changes` is `modified` exactly when some route was moved. -/
theorem foldl_reroute_isSome (f : StaticRoute → Option String) (routeTable : List StaticRoute)
    (changes : Option String) :
    (routeTable.foldl (fun changes route => (f route).or changes) changes).isSome ↔
      (∃ route ∈ routeTable, f route ≠ none) ∨ changes.isSome := by
  induction routeTable generalizing changes with
  | nil => simp
  | cons route routeTable ih =>
    rw [List.foldl_cons, ih]
    cases hf : f route <;> simp [hf]

/-- The loop moves a route in two cases: from an unhealthy next hop to its
healthy backup, and from a healthy next hop to the healthy stored primary. -/
theorem reroute_cases {back_to_primary : Bool} {hops : NextHops} {routes : Option Routes} {route : StaticRoute}
    {chosen : String} :
    reroute back_to_primary hops routes route = some chosen ↔
      ∃ address, route.nextHopAddress = some address ∧ chosen ∈ hops.healthy ∧
        (hops.unhealthy.lookup address = some chosen ∨
          recordable hops route = some address ∧ back_to_primary ∧
            primary routes route.destinationPrefix = some chosen ∧ address ≠ chosen) := by
  rw [reroute, Option.bind_eq_some_iff]
  refine exists_congr fun address => and_congr_right fun haddress => ?_
  rw [recordable_eq_some, and_iff_right haddress]
  cases hunhealthy : hops.unhealthy.lookup address with
  | some backup_router =>
    have hmem : address ∈ hops.unhealthy := Finmap.mem_of_lookup_eq_some hunhealthy
    simp only [Option.ite_none_right_eq_some, Option.some.injEq]
    constructor
    · rintro ⟨hhealthy, rfl⟩
      exact ⟨hhealthy, Or.inl rfl⟩
    · rintro ⟨hhealthy, rfl | ⟨⟨_, hnot⟩, _⟩⟩
      · exact ⟨hhealthy, rfl⟩
      · exact absurd hmem hnot
  | none =>
    have hmem : address ∉ hops.unhealthy := Finmap.lookup_eq_none.mp hunhealthy
    simp only [Option.ite_none_right_eq_some, Option.filter_eq_some_iff, decide_eq_true_eq, reduceCtorEq, false_or]
    tauto

/-- Every next hop that the loop installs is healthy, and it replaces a known
one. -/
theorem reroute_eq_some {back_to_primary : Bool} {hops : NextHops} {routes : Option Routes}
    {route : StaticRoute} {chosen : String}
    (h : reroute back_to_primary hops routes route = some chosen) :
    chosen ∈ hops.healthy ∧ ∃ address, route.nextHopAddress = some address ∧ hops.Known address := by
  obtain ⟨address, haddress, hhealthy, hunhealthy | ⟨hrec, _⟩⟩ := reroute_cases.mp h
  · exact ⟨hhealthy, address, haddress, Or.inr (Finmap.mem_of_lookup_eq_some hunhealthy)⟩
  · exact ⟨hhealthy, address, haddress, Or.inl (recordable_eq_some.mp hrec).2.1⟩

theorem rerouted_of_none {back_to_primary : Bool} {hops : NextHops} {routes : Option Routes} {route : StaticRoute}
    (h : reroute back_to_primary hops routes route = none) : rerouted back_to_primary hops routes route = route := by
  rw [rerouted, h, Option.elim_none]

theorem rerouted_of_some {back_to_primary : Bool} {hops : NextHops} {routes : Option Routes} {route : StaticRoute}
    {chosen : String} (h : reroute back_to_primary hops routes route = some chosen) :
    rerouted back_to_primary hops routes route = route.update chosen := by
  rw [rerouted, h, Option.elim_some]

end solution_library.route_switcher_v2
