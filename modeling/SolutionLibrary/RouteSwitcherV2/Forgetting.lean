import SolutionLibrary.RouteSwitcherV2.Completion

namespace solution_library.route_switcher_v2

def prefixes (routeTable : List StaticRoute) : List String :=
  routeTable.map StaticRoute.destinationPrefix

/-- The prefixes of the routes on healthy next hops. -/
def healthy_prefixes (hops : NextHops) (routeTable : List StaticRoute) : Finset String :=
  ((routeTable.filter fun route => (recordable hops route).isSome).map StaticRoute.destinationPrefix).toFinset

/-- A pass over the table spares a stored prefix: the prefix is managed, or the
pass prunes nothing because the stored prefixes, with those on healthy next
hops, are as many as the managed ones. -/
def Spared (hops : NextHops) (routes : Option Routes) (routeTable : List StaticRoute)
    (destinationPrefix : String) : Prop :=
  destinationPrefix ∈ managed hops routeTable ∨
    (stored_prefixes routes ∪ healthy_prefixes hops routeTable).card = (managed hops routeTable).card

theorem mem_healthy_prefixes {hops : NextHops} {routeTable : List StaticRoute} {destinationPrefix : String} :
    destinationPrefix ∈ healthy_prefixes hops routeTable ↔ ∃ route ∈ routeTable,
      route.destinationPrefix = destinationPrefix ∧ recordable hops route ≠ none := by
  simp only [healthy_prefixes, List.mem_toFinset, List.mem_map, List.mem_filter, Option.isSome_iff_ne_none]
  exact exists_congr fun route => by tauto

theorem stored_prefixes_record (hops : NextHops) (routes : Option Routes) (routeTable : List StaticRoute) :
    stored_prefixes (record hops routes routeTable) =
      stored_prefixes routes ∪ healthy_prefixes hops routeTable := by
  ext destinationPrefix
  rw [Finset.mem_union, mem_stored_prefixes, mem_stored_prefixes, mem_healthy_prefixes, primary_record,
    ne_eq, Option.or_eq_none_iff, not_and_or, List.findSome?_eq_none_iff]
  push Not
  refine or_congr_right (exists_congr fun route => and_congr_right fun _ => ?_)
  by_cases hdestination : route.destinationPrefix = destinationPrefix <;> simp [hdestination]

/-- The condition is exact for one pass. -/
theorem spared_iff {hops : NextHops} {routes : Option Routes} {routeTable : List StaticRoute}
    {destinationPrefix address : String} (haddress : primary routes destinationPrefix = some address) :
    Spared hops routes routeTable destinationPrefix ↔
      primary (kept hops routes routeTable) destinationPrefix = some address := by
  rw [Spared, ← stored_prefixes_record, primary_kept, primary_record_of_some haddress]
  split
  · next hpruned =>
    obtain ⟨hcard, hmanaged⟩ := hpruned
    simp [hcard, hmanaged]
  · next hkept =>
    simp only [iff_true]
    tauto

/-- The invocation spares a prefix of the entry at a position, if it stores what it
has read: it completes, its upload succeeds, and it reads the table of the entry,
which contains the prefix. -/
def Calls.Spares (i : ℕ) (destinationPrefix : String) (cloud : Cloud) (calls : Calls) : Prop :=
  ∀ hops entry, calls.Completes hops cloud → calls.put_config = true → cloud.entry i = some entry →
    calls.routeTables i = .ok () → destinationPrefix ∈ prefixes (cloud.tables entry.route_table_id) →
      primary entry.routes destinationPrefix ≠ none →
        Spared hops entry.routes (cloud.tables entry.route_table_id) destinationPrefix

/-- The event, if it is a tick, spares the prefix. -/
def Event.Spares (i : ℕ) (destinationPrefix : String) (cloud : Cloud) : Event → Prop
  | .tick calls => calls.Spares i destinationPrefix cloud
  | .edit _ _ => True

/-- The entry at a position, for the given table, stores the address as the
primary of the prefix. -/
def Cloud.Stores (i : ℕ) (id destinationPrefix address : String) (cloud : Cloud) : Prop :=
  ∃ entry, cloud.entry i = some entry ∧ entry.route_table_id = id ∧
    primary entry.routes destinationPrefix = some address

/-- From any state of the run on, a primary that the entry at a position stores for
the prefix stays as long as the table contains the prefix. -/
def NeverForgets (back_to_primary : Bool) (i : ℕ) (destinationPrefix : String) (start : Cloud)
    (events : List Event) : Prop :=
  ∀ before during after id address, events = before ++ during ++ after →
    (before.foldl (Cloud.after back_to_primary) start).Stores i id destinationPrefix address →
      invariant.Along (Cloud.after back_to_primary) (fun cloud _ => destinationPrefix ∈ prefixes (cloud.tables id))
        (before.foldl (Cloud.after back_to_primary) start) during →
        (during.foldl (Cloud.after back_to_primary)
          (before.foldl (Cloud.after back_to_primary) start)).Stores i id destinationPrefix address

section tick

variable {cloud : Cloud} {calls : Calls} {i : ℕ} {id destinationPrefix address : String}

/-- A tick keeps a stored primary that it spares. -/
theorem Cloud.Stores.tick (h : cloud.Stores i id destinationPrefix address)
    (hdestination : destinationPrefix ∈ prefixes (cloud.tables id)) (hspares : calls.Spares i destinationPrefix cloud)
    (back_to_primary : Bool) : (tick back_to_primary cloud calls).Stores i id destinationPrefix address := by
  obtain ⟨entry, hentry, rfl, hprimary⟩ := h
  by_cases huploaded : ∃ hops, calls.Completes hops cloud ∧ calls.put_config = true
  · obtain ⟨hops, hcompletes, hput⟩ := huploaded
    refine ⟨_, tick_entry_of_completes hcompletes hput hentry, ?_⟩
    rw [CheckedTable.answered]
    split
    · next hread =>
      have hne : cloud.tables entry.route_table_id ≠ [] := by
        intro hempty
        rw [hempty] at hdestination
        cases hdestination
      have hspared := hspares hops entry hcompletes hput hentry hread hdestination (by simp [hprimary])
      rw [CheckedTable.of_config_route_table, if_neg hne]
      exact ⟨rfl, (spared_iff hprimary).mp hspared⟩
    · exact ⟨rfl, hprimary⟩
  · push Not at huploaded
    refine ⟨entry, ?_, rfl, hprimary⟩
    rw [tick_entry_of_not_uploaded fun hops hcompletes => by simpa using huploaded hops hcompletes, hentry]

/-- A tick that keeps the stored primary of a prefix of its table spares it. -/
theorem Calls.spares_of_stores (back_to_primary : Bool)
    (h : ∀ id address, cloud.Stores i id destinationPrefix address → destinationPrefix ∈ prefixes (cloud.tables id) →
      (route_switcher_v2.tick back_to_primary cloud calls).Stores i id destinationPrefix address) :
    calls.Spares i destinationPrefix cloud := by
  intro hops entry hcompletes hput hentry hread hdestination hsome
  obtain ⟨address, hprimary⟩ := Option.ne_none_iff_exists'.mp hsome
  obtain ⟨stored, hstored, _, hkept⟩ := h entry.route_table_id address ⟨entry, hentry, rfl, hprimary⟩ hdestination
  have hne : cloud.tables entry.route_table_id ≠ [] := by
    intro hempty
    rw [hempty] at hdestination
    cases hdestination
  rw [tick_entry_of_completes hcompletes hput hentry, CheckedTable.answered, if_pos hread] at hstored
  cases hstored
  rw [CheckedTable.of_config_route_table, if_neg hne] at hkept
  exact (spared_iff hprimary).mpr hkept

end tick

/-- A recorded primary is never forgotten while its route exists exactly in the
runs whose ticks spare it. -/
theorem recorded_primary_persists_iff (back_to_primary : Bool) (i : ℕ) (destinationPrefix : String) (start : Cloud)
    (events : List Event) : NeverForgets back_to_primary i destinationPrefix start events ↔
      invariant.Along (Cloud.after back_to_primary) (Event.Spares i destinationPrefix) start events := by
  constructor
  · intro h
    refine invariant.along_iff_forall.mpr fun before event after hevents => ?_
    cases event with
    | edit id routes => trivial
    | tick calls =>
      refine Calls.spares_of_stores back_to_primary fun id address hstores hdestination => ?_
      exact h before [.tick calls] after id address (by simpa using hevents) hstores ⟨hdestination, trivial⟩
  · rintro h before during after id address rfl hstores hdestination
    have hspares := (invariant.along_append.mp (invariant.along_append.mp h).1).2
    refine ((hdestination.and hspares).keeps (fun cloud event hstores hboth => ?_) hstores).1
    cases event with
    | edit other routes => exact hstores
    | tick calls => exact hstores.tick hboth.1 hboth.2 back_to_primary

/-- A report without the first router of the README makes the function forget
the primary that its first tick has stored, although the route is still there. -/
theorem recorded_primary_forgotten :
    let start := readme_cloud none "10.160.1.10"
    let first := Calls.succeeding true start (readme_report .HEALTHY .HEALTHY)
    let shrunk_report : List TargetState := [⟨"192.168.2.10", .HEALTHY⟩, ⟨"192.168.3.10", .HEALTHY⟩]
    let last := Calls.succeeding true (tick true start first) shrunk_report
    ¬ NeverForgets true 0 "0.0.0.0/0" start [.tick first, .tick last] := by
  intro start first shrunk_report last h
  obtain ⟨entry, hentry, _, hprimary⟩ := h [.tick first] [.tick last] [] "enp000000000000dmzrt" "10.160.1.10" rfl
    ⟨⟨"enp000000000000dmzrt", some ((∅ : Routes).insert "0.0.0.0/0" "10.160.1.10")⟩, by decide, rfl, by decide⟩
    ⟨by decide, trivial⟩
  have hempty : (tick true (tick true start first) last).entry 0 = some ⟨"enp000000000000dmzrt", some ∅⟩ := by decide
  cases hempty.symm.trans hentry
  revert hprimary
  decide

end solution_library.route_switcher_v2
