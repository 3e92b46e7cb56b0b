import SolutionLibrary.RouteSwitcherV2.Forgetting

namespace solution_library.route_switcher_v2

/-- The shared state together with the next hops that the operator has
configured so far, for a table and a prefix. -/
structure History where
  cloud : Cloud
  configured : String → String → String → Prop

/-- Some route of the table sends a prefix to an address. -/
def Points (routeTable : List StaticRoute) (destinationPrefix address : String) : Prop :=
  ∃ route ∈ routeTable, route.destinationPrefix = destinationPrefix ∧ route.nextHopAddress = some address

/-- The tables at the start are the operator's. -/
def History.start (cloud : Cloud) : History where
  cloud := cloud
  configured id := Points (cloud.tables id)

/-- An operator replaces the routes of a table, and thereby configures the next
hops that the table did not have before. -/
def History.edit (history : History) (id : String) (routes : List StaticRoute) : History where
  cloud := { history.cloud with tables := Function.update history.cloud.tables id routes }
  configured other destinationPrefix address :=
    history.configured other destinationPrefix address ∨ other = id ∧
      Points routes destinationPrefix address ∧ ¬ Points (history.cloud.tables id) destinationPrefix address

def History.tick (history : History) (back_to_primary : Bool) (calls : Calls) : History :=
  { history with cloud := route_switcher_v2.tick back_to_primary history.cloud calls }

@[simp] theorem History.cloud_tick (history : History) (back_to_primary : Bool) (calls : Calls) :
    (history.tick back_to_primary calls).cloud = route_switcher_v2.tick back_to_primary history.cloud calls := rfl

/-- A tick restricted to some invocations, or an edit by an operator. -/
inductive HistoryStep (Allowed : Cloud → Calls → Prop) (back_to_primary : Bool) : History → History → Prop where
  | tick {history : History} {calls : Calls} (hpossible : calls.Possible back_to_primary history.cloud)
      (hallowed : Allowed history.cloud calls) :
      HistoryStep Allowed back_to_primary history (history.tick back_to_primary calls)
  | edit (history : History) (id : String) (routes : List StaticRoute) :
      HistoryStep Allowed back_to_primary history (history.edit id routes)

/-- Every primary stored for a prefix of a table is a next hop that the
operator configured for it. -/
def History.OperatorsChoice (id destinationPrefix : String) (history : History) : Prop :=
  ∀ i entry address, history.cloud.entry i = some entry → entry.route_table_id = id →
    primary entry.routes destinationPrefix = some address → history.configured id destinationPrefix address

/-- Along every run from a configuration without stored primaries, the stored
primaries are the operator's choice. -/
def StoresOperatorsChoice (step : String → String → History → History → Prop) : Prop :=
  ∀ cloud history id destinationPrefix, (∀ entry ∈ cloud.entries, entry.routes = none) →
    Relation.ReflTransGen (step id destinationPrefix) (.start cloud) history →
      history.OperatorsChoice id destinationPrefix

/-- The invocation moves a route of the prefix to a backup: a PATCH of its table
takes effect, and the route is on an unhealthy next hop with a healthy backup. -/
def Calls.FailsOver (id destinationPrefix : String) (cloud : Cloud) (calls : Calls) : Prop :=
  (∃ request ∈ calls.failover, request.route_table_id = id) ∧
    ∃ hops, check_targets cloud.config calls.targetStates = .ok (some hops) ∧
      ∃ route ∈ cloud.tables id, route.destinationPrefix = destinationPrefix ∧ ∃ address backup_router,
        route.nextHopAddress = some address ∧ hops.unhealthy.lookup address = some backup_router ∧
          backup_router ∈ hops.healthy

/-- The tick prunes a primary of the prefix that an entry for the table stores,
while the prefix is in the table. -/
def Calls.Prunes (back_to_primary : Bool) (id destinationPrefix : String) (cloud : Cloud) (calls : Calls) : Prop :=
  destinationPrefix ∈ prefixes (cloud.tables id) ∧ ∃ i entry stored, cloud.entry i = some entry ∧
    entry.route_table_id = id ∧ primary entry.routes destinationPrefix ≠ none ∧
      (tick back_to_primary cloud calls).entry i = some stored ∧ primary stored.routes destinationPrefix = none

/-- The two conditions of an invocation under which the primaries stored for a
prefix of a table stay the operator's choice: it moves no route of the prefix to
a backup unless every entry for the table stores a primary for the prefix, and it
prunes no such primary. -/
structure Calls.Faithful (back_to_primary : Bool) (id destinationPrefix : String) (cloud : Cloud) (calls : Calls) :
    Prop where
  recorded : calls.FailsOver id destinationPrefix cloud →
    ∀ entry ∈ cloud.entries, entry.route_table_id = id → primary entry.routes destinationPrefix ≠ none
  keeps : ¬ calls.Prunes back_to_primary id destinationPrefix cloud

/-- What holds along such runs: the stored primaries and, in front of an entry
without one, the live next hops are the operator's choice. -/
structure History.Faithful (id destinationPrefix : String) (history : History) : Prop where
  stored : history.OperatorsChoice id destinationPrefix
  live : ∀ address, Points (history.cloud.tables id) destinationPrefix address →
    history.configured id destinationPrefix address ∨ ∀ i entry, history.cloud.entry i = some entry →
      entry.route_table_id = id → primary entry.routes destinationPrefix ≠ none

section faithful

variable {history : History} {id destinationPrefix : String}

/-- A pass over a live table records only what the operator configured. -/
theorem History.Faithful.configured_of_record (h : history.Faithful id destinationPrefix) {i : ℕ}
    {entry : ConfigRouteTable} (hentry : history.cloud.entry i = some entry) (hid : entry.route_table_id = id)
    {hops : NextHops} {address : String}
    (hprimary : primary (record hops entry.routes (history.cloud.tables id)) destinationPrefix = some address) :
    history.configured id destinationPrefix address := by
  cases hstored : primary entry.routes destinationPrefix with
  | some old =>
    rw [primary_record_of_some hstored] at hprimary
    cases hprimary
    exact h.stored i entry address hentry hid hstored
  | none =>
    rw [primary_record, hstored, Option.none_or] at hprimary
    obtain ⟨route, hroute, hchoice⟩ := List.exists_of_findSome?_eq_some hprimary
    obtain ⟨hdestination, hrec⟩ := Option.ite_none_right_eq_some.mp hchoice
    obtain ⟨haddress, _, _⟩ := recordable_eq_some.mp hrec
    refine (h.live address ⟨route, hroute, hdestination, haddress⟩).resolve_right fun hall => ?_
    exact hall i entry hentry hid hstored

theorem History.Faithful.operatorsChoice_tick (h : history.Faithful id destinationPrefix) (back_to_primary : Bool)
    (calls : Calls) : (history.tick back_to_primary calls).OperatorsChoice id destinationPrefix := by
  intro i stored address hstored hid hprimary
  obtain ⟨entry, hentry, hcases⟩ := tick_entry_inv hstored
  obtain rfl | ⟨hops, _, _, rfl⟩ := hcases
  · exact h.stored i _ address hentry hid hprimary
  · rw [primary_kept] at hprimary
    split at hprimary
    · cases hprimary
    · rw [show entry.route_table_id = id from hid] at hprimary
      exact h.configured_of_record hentry hid hprimary

/-- An invocation that meets the two conditions keeps the invariant. -/
theorem History.Faithful.faithful_tick (h : history.Faithful id destinationPrefix) {back_to_primary : Bool}
    {calls : Calls} (hpossible : calls.Possible back_to_primary history.cloud)
    (hcalls : calls.Faithful back_to_primary id destinationPrefix history.cloud) :
    (history.tick back_to_primary calls).Faithful id destinationPrefix := by
  refine ⟨h.operatorsChoice_tick back_to_primary calls, ?_⟩
  -- Stored primaries of a prefix of the table outlive the tick.
  have hpersists (hdestination : destinationPrefix ∈ prefixes (history.cloud.tables id))
      (hall : ∀ i entry, history.cloud.entry i = some entry → entry.route_table_id = id →
        primary entry.routes destinationPrefix ≠ none) :
      ∀ i stored, (history.tick back_to_primary calls).cloud.entry i = some stored →
        stored.route_table_id = id → primary stored.routes destinationPrefix ≠ none := by
    intro i stored hstored hid hpruned
    obtain ⟨entry, hentry, hcases⟩ := tick_entry_inv hstored
    have hsame : entry.route_table_id = id := by
      obtain rfl | ⟨_, _, _, rfl⟩ := hcases <;> exact hid
    exact hcalls.keeps ⟨hdestination, i, entry, stored, hentry, hsame, hall i entry hentry hsame, hstored, hpruned⟩
  rintro address ⟨route, hroute, rfl, haddress⟩
  rw [History.cloud_tick] at hroute
  obtain ⟨request, hrequest, hid, hroutes⟩ | ⟨_, hsame⟩ := foldl_patch calls.failover history.cloud.tables id
  · obtain ⟨hops, j, other, htargets, hother, hotherId, _, _, hlist⟩ := request_cases (hpossible.subset hrequest)
    rw [hid] at hotherId
    rw [hotherId] at hlist
    change route ∈ calls.failover.foldl patch history.cloud.tables id at hroute
    rw [hroutes, hlist] at hroute
    obtain ⟨old, hold, rfl⟩ := List.mem_map.mp ((sort_routes_perm _).subset hroute)
    rw [destinationPrefix_rerouted] at *
    cases hchoice : reroute back_to_primary hops (record hops other.routes (history.cloud.tables id)) old with
    | none =>
      rw [rerouted_of_none hchoice] at haddress
      exact (h.live address ⟨old, hold, rfl, haddress⟩).imp_right (hpersists (List.mem_map_of_mem hold))
    | some chosen =>
      rw [rerouted_of_some hchoice, StaticRoute.nextHopAddress_update] at haddress
      cases haddress
      obtain ⟨failed, hfailed, hhealthy, hunhealthy | ⟨_, _, hprimary, _⟩⟩ := reroute_cases.mp hchoice
      · refine Or.inr (hpersists (List.mem_map_of_mem hold) fun i entry hentry hid => ?_)
        exact hcalls.recorded ⟨⟨request, hrequest, ‹_›⟩, hops, htargets, old, hold, rfl, failed, address, hfailed,
          hunhealthy, hhealthy⟩ entry (Cloud.mem_entries hentry) hid
      · exact Or.inl (h.configured_of_record hother hotherId hprimary)
  · change route ∈ calls.failover.foldl patch history.cloud.tables id at hroute
    rw [hsame] at hroute
    exact (h.live address ⟨route, hroute, rfl, haddress⟩).imp_right (hpersists (List.mem_map_of_mem hroute))

/-- An edit by the operator keeps the invariant. -/
theorem History.Faithful.faithful_edit (h : history.Faithful id destinationPrefix) (edited : String)
    (routes : List StaticRoute) : (history.edit edited routes).Faithful id destinationPrefix := by
  refine ⟨fun i entry address hentry hid hprimary => Or.inl (h.stored i entry address hentry hid hprimary), ?_⟩
  intro address hpoints
  by_cases hold : Points (history.cloud.tables id) destinationPrefix address
  · exact (h.live address hold).imp_left Or.inl
  · change Points (Function.update history.cloud.tables edited routes id) destinationPrefix address at hpoints
    by_cases hid : id = edited
    · subst hid
      rw [Function.update_self] at hpoints
      exact Or.inl (Or.inr ⟨rfl, hpoints, hold⟩)
    · rw [Function.update_of_ne hid] at hpoints
      exact absurd hpoints hold

end faithful

theorem History.faithful_start {cloud : Cloud} (hempty : ∀ entry ∈ cloud.entries, entry.routes = none)
    (id destinationPrefix : String) : (History.start cloud).Faithful id destinationPrefix where
  stored i entry address hentry _ hprimary := by
    rw [hempty entry (Cloud.mem_entries hentry)] at hprimary
    cases hprimary
  live address hpoints := Or.inl hpoints

theorem keeps_faithful (back_to_primary : Bool) (id destinationPrefix : String) :
    invariant.Keeps (HistoryStep (Calls.Faithful back_to_primary id destinationPrefix) back_to_primary)
      (History.Faithful id destinationPrefix) := by
  intro history _ hfaithful hstep
  cases hstep with
  | tick hpossible hcalls => exact hfaithful.faithful_tick hpossible hcalls
  | edit edited routes => exact hfaithful.faithful_edit edited routes

/-- The primaries stored for a prefix of a table are the operator's choice in
every run that fails the prefix over only when it is recorded, and prunes no
primary of the prefix while its route is still there. -/
theorem stored_primaries_are_configured (back_to_primary : Bool) :
    StoresOperatorsChoice fun id destinationPrefix =>
      HistoryStep (Calls.Faithful back_to_primary id destinationPrefix) back_to_primary := by
  intro cloud history id destinationPrefix hempty hrun
  have hstart : (History.start cloud).Faithful id destinationPrefix :=
    History.faithful_start hempty id destinationPrefix
  exact ((keeps_faithful back_to_primary id destinationPrefix).run hrun hstart).stored

theorem Calls.not_prunes {back_to_primary : Bool} {id destinationPrefix : String} {cloud : Cloud} {calls : Calls}
    (h : ∀ stored ∈ (tick back_to_primary cloud calls).entries, primary stored.routes destinationPrefix = none →
      ∀ entry ∈ cloud.entries, primary entry.routes destinationPrefix = none) :
    ¬ calls.Prunes back_to_primary id destinationPrefix cloud := by
  rintro ⟨_, i, entry, stored, hentry, _, hsome, hstored, hnone⟩
  exact hsome (h stored (Cloud.mem_entries hstored) hnone entry (Cloud.mem_entries hentry))

/-- The first router of the README set-up is down at first, but the PATCH of the
table fails. The next tick finds it up again and stores the default route, and the
third one fails over: the stored primary is the operator's choice. -/
theorem stored_primaries_are_configured_readme :
    let start := readme_cloud none "10.160.1.10"
    let first := { Calls.succeeding true start (readme_report .UNHEALTHY .HEALTHY) with failover := [] }
    let second := Calls.succeeding true start (readme_report .HEALTHY .HEALTHY)
    let third := Calls.succeeding true (tick true start second) (readme_report .UNHEALTHY .HEALTHY)
    ((((History.start start).tick true first).tick true second).tick true third).OperatorsChoice
      "enp000000000000dmzrt" "0.0.0.0/0" := by
  intro start first second third
  have hstart : tick true start first = start := by
    apply Cloud.ext
    · rfl
    · decide
  have hfirst : first.Faithful true "enp000000000000dmzrt" "0.0.0.0/0" start := by
    refine ⟨?_, Calls.not_prunes (by decide)⟩
    rintro ⟨⟨_, hrequest, _⟩, _⟩
    cases hrequest
  have hsecond : second.Faithful true "enp000000000000dmzrt" "0.0.0.0/0" start := by
    refine ⟨?_, Calls.not_prunes (by decide)⟩
    rintro ⟨⟨request, hrequest, _⟩, _⟩
    have hnone : second.failover = [] := by decide
    rw [hnone] at hrequest
    cases hrequest
  have hthird : third.Faithful true "enp000000000000dmzrt" "0.0.0.0/0" (tick true start second) := by
    refine ⟨fun _ => ?_, Calls.not_prunes (by decide)⟩
    decide
  refine stored_primaries_are_configured true start _ _ _ (by decide)
    (.tail (.tail (.single (.tick ?_ hfirst)) (.tick ?_ ?_)) (.tick ?_ ?_))
  · exact List.nil_subperm
  · rw [History.cloud_tick]
    exact hstart.symm ▸ (Calls.succeeding_successful true start _).failover.subperm
  · exact hstart.symm ▸ hsecond
  · rw [History.cloud_tick, History.cloud_tick]
    exact hstart.symm ▸ (Calls.succeeding_successful true (tick true start second) _).failover.subperm
  · rw [History.cloud_tick, History.cloud_tick]
    exact hstart.symm ▸ hthird

/-- When the first router is down at the first tick, the second tick stores the
address that the first one has installed. -/
theorem stored_primary_not_configured : ¬ StoresOperatorsChoice fun _ _ => HistoryStep (fun _ _ => True) true := by
  intro h
  let start := readme_cloud none "10.160.1.10"
  let report := readme_report .UNHEALTHY .HEALTHY
  let failed := tick true start (.succeeding true start report)
  have hfirst : HistoryStep (fun _ _ => True) true (.start start) ((History.start start).tick true
      (.succeeding true start report)) :=
    .tick (Calls.succeeding_successful true start report).failover.subperm trivial
  have hsecond : HistoryStep (fun _ _ => True) true
      ((History.start start).tick true (.succeeding true start report))
      (((History.start start).tick true (.succeeding true start report)).tick true
        (.succeeding true failed report)) :=
    .tick (Calls.succeeding_successful true failed report).failover.subperm trivial
  obtain ⟨route, hroute, _, haddress⟩ := h start _ "enp000000000000dmzrt" "0.0.0.0/0" (by decide)
    (.tail (.single hfirst) hsecond) 0
    ⟨"enp000000000000dmzrt", some ((∅ : Routes).insert "0.0.0.0/0" "10.160.2.10")⟩ "10.160.2.10"
    (by decide) rfl (by decide)
  obtain rfl := List.mem_singleton.mp hroute
  revert haddress
  decide

end solution_library.route_switcher_v2
