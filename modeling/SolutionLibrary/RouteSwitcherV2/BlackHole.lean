import SolutionLibrary.RouteSwitcherV2.Convergence

namespace solution_library.route_switcher_v2

/-- The second address is the `backup_peer_ip` of an interface with the first
one. -/
def Backs (routers : List Router) (own_ip backup_peer_ip : String) : Prop :=
  ∃ router ∈ routers, ∃ interface ∈ router.interfaces.getD [], interface.configured = some (own_ip, backup_peer_ip)

/-- A route has somewhere to go: its stored primary is healthy, or some router
is on the chain of backups from its next hop. -/
def Avoidable (back_to_primary : Bool) (routers : List Router) (hops : NextHops) (routes : Option Routes)
    (destinationPrefix address : String) : Prop :=
  (back_to_primary ∧ ∃ primary_router ∈ hops.healthy, primary routes destinationPrefix = some primary_router) ∨
    ∃ backup_router ∈ hops.healthy, Relation.TransGen (Backs routers) address backup_router

/-- Under a report with a `HEALTHY` target that stays the same, no managed route
stays on a next hop of a non-`HEALTHY` router when it has somewhere to go. -/
def NoAvoidableBlackHole : Prop :=
  ∀ back_to_primary targets clouds calls routers, SteadyRun back_to_primary (some targets) clouds calls →
    (∃ address, (targetStatus targets).lookup address = some .HEALTHY) →
      (clouds 0).config.routers = some routers →
        ∃ k ≤ routers.length + 1, ∀ n ≥ k, ∀ entry ∈ (clouds n).entries,
          ∀ route ∈ (clouds n).tables entry.route_table_id, ∀ address, route.nextHopAddress = some address →
            address ∈ (nexthops (targetStatus targets) routers).unhealthy →
              address ∉ (nexthops (targetStatus targets) routers).healthy →
                ¬ Avoidable back_to_primary routers (nexthops (targetStatus targets) routers) entry.routes
                  route.destinationPrefix address

/-- A report of a single target lists no router with another status than that
of the target. -/
theorem unhealthy_eq_empty {targets : List TargetState} (hlen : targets.length < 2)
    (hhealthy : ∃ address, (targetStatus targets).lookup address = some .HEALTHY) (routers : List Router)
    (address : String) : address ∉ (nexthops (targetStatus targets) routers).unhealthy := by
  obtain ⟨healthy, hlookup⟩ := hhealthy
  rw [mem_unhealthy_iff]
  rintro ⟨router, _, ⟨s, hs, hdown⟩, _⟩
  match targets, hlen with
  | [], _ => simp [targetStatus] at hlookup
  | [target], _ =>
    obtain ⟨reported, _, hs⟩ := Option.bind_eq_some_iff.mp hs
    have hone {address : String} {s : TargetStatus} (h : (targetStatus [target]).lookup address = some s) :
        target.status = s := by
      obtain ⟨other, hother, haddress⟩ := mem_targetStatus.mp (Finmap.mem_of_lookup_eq_some h)
      rw [List.mem_singleton.mp hother] at haddress
      subst haddress
      simpa [targetStatus] using h
    exact hdown ((hone hs).symm.trans (hone hlookup))

/-- Under a report with a `HEALTHY` target that stays the same, after every tick
no managed route is on a next hop of non-`HEALTHY` routers whose backup is a
next hop of a `HEALTHY` one. -/
theorem no_healthy_backup_unused {back_to_primary : Bool} {targets : List TargetState} {clouds : ℕ → Cloud}
    {calls : ℕ → Calls} {routers : List Router} (hrun : SteadyRun back_to_primary (some targets) clouds calls)
    (haddressed : (clouds 0).Addressed)
    (hhealthy : ∃ address, (targetStatus targets).lookup address = some .HEALTHY)
    (hrouters : (clouds 0).config.routers = some routers) {n : ℕ} (hn : 1 ≤ n) :
    ∀ entry ∈ (clouds n).entries, ∀ route ∈ (clouds n).tables entry.route_table_id, ∀ address backup_router,
      route.nextHopAddress = some address →
        (nexthops (targetStatus targets) routers).unhealthy.lookup address = some backup_router →
          address ∉ (nexthops (targetStatus targets) routers).healthy →
            backup_router ∉ (nexthops (targetStatus targets) routers).healthy := by
  intro entry hentry route hroute address backup_router haddress hunhealthy hdown
  obtain ⟨n, rfl⟩ := Nat.exists_eq_add_of_le' hn
  by_cases hlen : targets.length < 2
  · exact absurd (Finmap.mem_of_lookup_eq_some hunhealthy) (unhealthy_eq_empty hlen hhealthy routers address)
  · have htargets : check_targets (clouds 0).config (.ok (some targets)) =
        .ok (some (nexthops (targetStatus targets) routers)) :=
      check_targets_eq_some.mpr ⟨targets, routers, rfl, Nat.le_of_not_lt hlen, hhealthy, hrouters, rfl⟩
    exact (hrun.drained haddressed htargets n entry hentry route hroute address backup_router haddress
      hunhealthy).resolve_left hdown

/-- The first tick of the README set-up leaves no route on the failed router. -/
theorem no_healthy_backup_unused_readme :
    let clouds := steady true (readme_report .UNHEALTHY .HEALTHY) (readme_cloud none "10.160.1.10")
    ∀ route ∈ (clouds 1).tables "enp000000000000dmzrt", route.nextHopAddress ≠ some "10.160.1.10" := by
  intro clouds route hroute haddress
  have hentry : (⟨"enp000000000000dmzrt", none⟩ : ConfigRouteTable) ∈ (clouds 1).entries := by decide
  exact no_healthy_backup_unused (steadyRun_steady true _ (readme_cloud none "10.160.1.10")) (by decide)
    ⟨"192.168.2.10", by decide⟩ rfl (Nat.le_refl 1) _ hentry route hroute "10.160.1.10" "10.160.2.10" haddress
    (by decide) (by decide) (by decide)

/-- Three routers in a ring of backups. -/
def ring_routers : List Router :=
  [⟨some "192.168.1.10", some [⟨some "10.160.1.10", some "10.160.2.10"⟩]⟩,
    ⟨some "192.168.2.10", some [⟨some "10.160.2.10", some "10.160.3.10"⟩]⟩,
    ⟨some "192.168.3.10", some [⟨some "10.160.3.10", some "10.160.1.10"⟩]⟩]

/-- A default route on the first router of the ring, whose primary is the
third one. -/
def ring_cloud : Cloud :=
  { tables := fun _ => [default_route "10.160.1.10"]
    config :=
      { loadBalancerId := "lb", targetGroupId := "tg", routers := some ring_routers
        route_tables := some [⟨"enp000000000000dmzrt",
          some ((∅ : Routes).insert "0.0.0.0/0" "10.160.3.10")⟩] } }

/-- When the first two routers of the ring fail, the route stays on the first
one for good, although the third is healthy, its primary, and next but one on
the chain of backups. -/
theorem avoidable_black_hole : ¬ NoAvoidableBlackHole := by
  intro h
  let targets : List TargetState :=
    [⟨"192.168.1.10", .UNHEALTHY⟩, ⟨"192.168.2.10", .UNHEALTHY⟩, ⟨"192.168.3.10", .HEALTHY⟩]
  have hfixed : tick true ring_cloud (.succeeding true ring_cloud targets) = ring_cloud :=
    tick_of_nothing (by decide) (Calls.succeeding_successful true ring_cloud targets).failover.subperm
  have hsteady (n : ℕ) : steady true targets ring_cloud n = ring_cloud := by
    induction n with
    | zero => rfl
    | succ n ih => rw [steady, ih, hfixed]
  obtain ⟨k, _, hk⟩ := h true targets _ _ ring_routers (steadyRun_steady true targets ring_cloud)
    ⟨"192.168.3.10", by decide⟩ rfl
  have hbad := hk k (Nat.le_refl k)
  rw [hsteady] at hbad
  refine hbad ⟨"enp000000000000dmzrt", some ((∅ : Routes).insert "0.0.0.0/0" "10.160.3.10")⟩ (by decide)
    (default_route "10.160.1.10") (by decide) "10.160.1.10" rfl (by decide) (by decide) (Or.inr ?_)
  have hfirst : Backs ring_routers "10.160.1.10" "10.160.2.10" :=
    ⟨_, List.mem_cons_self, _, List.mem_singleton_self _, by decide⟩
  have hsecond : Backs ring_routers "10.160.2.10" "10.160.3.10" :=
    ⟨_, List.mem_cons_of_mem _ List.mem_cons_self, _, List.mem_singleton_self _, by decide⟩
  exact ⟨"10.160.3.10", by decide, .tail (.single hfirst) hsecond⟩

end solution_library.route_switcher_v2
