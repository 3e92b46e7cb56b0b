import SolutionLibrary.RouteSwitcherV2.Config

namespace solution_library.route_switcher_v2

/-- `targetStatus`: the last status reported for each address. -/
def targetStatus (targetStates : List TargetState) : Finmap fun _ : String => TargetStatus :=
  targetStates.foldl (fun status target => status.insert target.address target.status) ∅

/-- The dictionaries `healthy_nexthops` and `unhealthy_nexthops`, from the
address of an interface to the address of its backup peer. -/
structure NextHops where
  healthy : Routes
  unhealthy : Routes
  deriving DecidableEq

/-- The address is a next hop of some reported router. -/
def NextHops.Known (hops : NextHops) (address : String) : Prop :=
  address ∈ hops.healthy ∨ address ∈ hops.unhealthy

instance (hops : NextHops) (address : String) : Decidable (hops.Known address) :=
  inferInstanceAs (Decidable (_ ∨ _))

/-- Both addresses of an interface, when both are configured. -/
def Interface.configured (interface : Interface) : Option (String × String) :=
  (present interface.own_ip).bind fun own_ip =>
    (present interface.backup_peer_ip).map fun backup_peer_ip => (own_ip, backup_peer_ip)

def add_interface (nexthops : Routes) (interface : Interface) : Routes :=
  match interface.configured with
  | some (own_ip, backup_peer_ip) => nexthops.insert own_ip backup_peer_ip
  | none => nexthops

/-- The status reported for a router, absent for a router without a
`healthchecked_ip` and for one that the report does not list. -/
def Router.status (status : Finmap fun _ : String => TargetStatus) (router : Router) : Option TargetStatus :=
  (present router.healthchecked_ip).bind fun address => status.lookup address

/-- One pass of the loop over `config['routers']`. A router without interfaces
is skipped, whether the key is absent, null or an empty list. -/
def add_router (status : Finmap fun _ : String => TargetStatus) (hops : NextHops) (router : Router) : NextHops :=
  match router.status status with
  | none => hops
  | some .HEALTHY => { hops with healthy := (router.interfaces.getD []).foldl add_interface hops.healthy }
  | some _ => { hops with unhealthy := (router.interfaces.getD []).foldl add_interface hops.unhealthy }

def nexthops (status : Finmap fun _ : String => TargetStatus) (routers : List Router) : NextHops :=
  routers.foldl (add_router status) ⟨∅, ∅⟩

/-- Interfaces of the routers whose reported status satisfies `p`. -/
def offered (status : Finmap fun _ : String => TargetStatus) (p : TargetStatus → Bool)
    (routers : List Router) : List Interface :=
  routers.flatMap fun router => if (router.status status).any p then router.interfaces.getD [] else []

theorem Interface.configured_eq_some {interface : Interface} {own_ip backup_peer_ip : String} :
    interface.configured = some (own_ip, backup_peer_ip) ↔
      (interface.own_ip = some own_ip ∧ own_ip ≠ "") ∧
        interface.backup_peer_ip = some backup_peer_ip ∧ backup_peer_ip ≠ "" := by
  simp [Interface.configured, Option.bind_eq_some_iff, present_eq_some]

theorem mem_foldl_add_interface (interfaces : List Interface) (hops : Routes) (address : String) :
    address ∈ interfaces.foldl add_interface hops ↔
      address ∈ hops ∨ ∃ interface ∈ interfaces, ∃ backup, interface.configured = some (address, backup) := by
  induction interfaces generalizing hops with
  | nil => simp
  | cons interface interfaces ih =>
    rw [List.foldl_cons, ih]
    cases hconf : interface.configured with
    | none => simp [add_interface, hconf]
    | some pair =>
      obtain ⟨own_ip, backup⟩ := pair
      simp only [add_interface, hconf, Finmap.mem_insert, List.mem_cons, exists_eq_or_imp,
        Option.some.injEq, Prod.mk.injEq, exists_eq_right']
      tauto

private theorem foldl_add_router (status : Finmap fun _ : String => TargetStatus) (routers : List Router)
    (hops : NextHops) :
    routers.foldl (add_router status) hops =
      ⟨(offered status (· = .HEALTHY) routers).foldl add_interface hops.healthy,
        (offered status (· ≠ .HEALTHY) routers).foldl add_interface hops.unhealthy⟩ := by
  induction routers generalizing hops with
  | nil => rfl
  | cons router routers ih =>
    rw [List.foldl_cons, ih]
    simp only [offered, List.flatMap_cons, List.foldl_append]
    cases hstatus : router.status status with
    | none => simp [add_router, hstatus]
    | some s => cases s <;> simp [add_router, hstatus]

/-- The dictionary of healthy next hops is filled from the interfaces of the
routers reported `HEALTHY`. -/
theorem nexthops_healthy (status : Finmap fun _ : String => TargetStatus) (routers : List Router) :
    (nexthops status routers).healthy = (offered status (· = .HEALTHY) routers).foldl add_interface ∅ := by
  rw [nexthops, foldl_add_router]

/-- The dictionary of unhealthy next hops is filled from the interfaces of the
routers reported with any other status. -/
theorem nexthops_unhealthy (status : Finmap fun _ : String => TargetStatus) (routers : List Router) :
    (nexthops status routers).unhealthy = (offered status (· ≠ .HEALTHY) routers).foldl add_interface ∅ := by
  rw [nexthops, foldl_add_router]

theorem mem_offered {status : Finmap fun _ : String => TargetStatus} {p : TargetStatus → Bool}
    {routers : List Router} {interface : Interface} :
    interface ∈ offered status p routers ↔
      ∃ router ∈ routers, (∃ s, router.status status = some s ∧ p s) ∧ interface ∈ router.interfaces.getD [] := by
  simp only [offered, List.mem_flatMap]
  refine exists_congr fun router => and_congr_right fun _ => ?_
  cases hstatus : router.status status with
  | none => simp
  | some s => by_cases hp : p s <;> simp [hp]

theorem mem_targetStatus {targetStates : List TargetState} {address : String} :
    address ∈ targetStatus targetStates ↔ ∃ target ∈ targetStates, target.address = address := by
  have hfold (status : Finmap fun _ : String => TargetStatus) :
      address ∈ targetStates.foldl (fun status target => status.insert target.address target.status) status ↔
        address ∈ status ∨ ∃ target ∈ targetStates, target.address = address := by
    induction targetStates generalizing status with
    | nil => simp
    | cons target targetStates ih =>
      rw [List.foldl_cons, ih, Finmap.mem_insert, List.exists_mem_cons_iff, eq_comm (a := address)]
      tauto
  rw [targetStatus, hfold]
  exact or_iff_right Finmap.notMem_empty

/-- A healthy next hop is the address of a fully configured interface of a
router reported `HEALTHY`. -/
theorem mem_healthy_iff {status : Finmap fun _ : String => TargetStatus} {routers : List Router}
    {address : String} :
    address ∈ (nexthops status routers).healthy ↔
      ∃ router ∈ routers, router.status status = some .HEALTHY ∧
        ∃ interface ∈ router.interfaces.getD [], ∃ backup, interface.configured = some (address, backup) := by
  simp only [nexthops_healthy, mem_foldl_add_interface, Finmap.notMem_empty, false_or, mem_offered]
  constructor
  · rintro ⟨interface, ⟨router, hrouter, ⟨s, hs, hp⟩, hmem⟩, backup, hconf⟩
    obtain rfl : s = .HEALTHY := by simpa using hp
    exact ⟨router, hrouter, hs, interface, hmem, backup, hconf⟩
  · rintro ⟨router, hrouter, hs, interface, hmem, backup, hconf⟩
    exact ⟨interface, ⟨router, hrouter, ⟨_, hs, by simp⟩, hmem⟩, backup, hconf⟩

theorem mem_unhealthy_iff {status : Finmap fun _ : String => TargetStatus} {routers : List Router}
    {address : String} :
    address ∈ (nexthops status routers).unhealthy ↔
      ∃ router ∈ routers, (∃ s, router.status status = some s ∧ s ≠ .HEALTHY) ∧
        ∃ interface ∈ router.interfaces.getD [], ∃ backup, interface.configured = some (address, backup) := by
  simp only [nexthops_unhealthy, mem_foldl_add_interface, Finmap.notMem_empty, false_or, mem_offered]
  constructor
  · rintro ⟨interface, ⟨router, hrouter, ⟨s, hs, hp⟩, hmem⟩, backup, hconf⟩
    exact ⟨router, hrouter, ⟨s, hs, by simpa using hp⟩, interface, hmem, backup, hconf⟩
  · rintro ⟨router, hrouter, ⟨s, hs, hp⟩, interface, hmem, backup, hconf⟩
    exact ⟨interface, ⟨router, hrouter, ⟨s, hs, by simpa using hp⟩, hmem⟩, backup, hconf⟩

/-- A next hop is known when the report lists the router of one of its
interfaces, whatever the status. -/
theorem known_iff {status : Finmap fun _ : String => TargetStatus} {routers : List Router} {address : String} :
    (nexthops status routers).Known address ↔
      ∃ router ∈ routers, (∃ s, router.status status = some s) ∧
        ∃ interface ∈ router.interfaces.getD [], ∃ backup, interface.configured = some (address, backup) := by
  rw [NextHops.Known, mem_healthy_iff, mem_unhealthy_iff]
  constructor
  · rintro (⟨router, hrouter, hs, hrest⟩ | ⟨router, hrouter, ⟨s, hs, _⟩, hrest⟩)
    · exact ⟨router, hrouter, ⟨_, hs⟩, hrest⟩
    · exact ⟨router, hrouter, ⟨s, hs⟩, hrest⟩
  · rintro ⟨router, hrouter, ⟨s, hs⟩, hrest⟩
    by_cases hhealthy : s = .HEALTHY
    · exact Or.inl ⟨router, hrouter, by rw [hs, hhealthy], hrest⟩
    · exact Or.inr ⟨router, hrouter, ⟨s, hs, hhealthy⟩, hrest⟩

end solution_library.route_switcher_v2
