import SolutionLibrary.RouteSwitcherV1.Recovery

namespace solution_library.route_switcher_v1

/-- The shape of the template: two destinations, the secondary table of each
being the primary table of the other. The template renders an empty list of
subnets as null. -/
structure Crossing (config : Config) (first second : String × Destination) : Prop where
  entries : config.routes_config.Perm [first, second]
  addresses : first.1 ≠ second.1
  first_secondary : first.2.route_table.secondary = second.2.route_table.primary
  second_secondary : second.2.route_table.secondary = first.2.route_table.primary

/-- The status that the report has last for an address. -/
def reported (fullStatus : List TargetState) (address : String) : Option TargetStatus :=
  journal.last TargetState.address (fun real => some real.status) fullStatus address none

/-- The report lists the routers of the configuration and no others. -/
structure Config.Listed (config : Config) (fullStatus : List TargetState) : Prop where
  known : ∀ real ∈ fullStatus, ∃ entry ∈ config.routes_config, entry.1 = real.address
  listed : ∀ entry ∈ config.routes_config, ∃ real ∈ fullStatus, real.address = entry.1

/-- No call of the invocation fails. -/
def Calls.succeeding (fullStatus : List TargetState) : Calls where
  get_config := true
  targetStates := some fullStatus
  send_message := none
  put_config := true

/-- The switcher has applied the messages of the queue in order. -/
def Fifo.drained (s : Fifo) : Fifo :=
  { s with queue := [], subnets := s.queue.foldl switch s.subnets }

/-- A tick of the checker without failed calls, drained by the switcher. -/
def Fifo.round (s : Fifo) (fullStatus : List TargetState) : Fifo :=
  (s.after (.checker (.succeeding fullStatus))).drained

/-- Every destination that turns has a list of subnets. -/
def Turnable (s : Fifo) (fullStatus : List TargetState) : Prop :=
  ∀ entry ∈ s.config.routes_config, (observed fullStatus entry).2.Turns → entry.2.subnets ≠ none

instance (s : Fifo) (fullStatus : List TargetState) : Decidable (Turnable s fullStatus) :=
  inferInstanceAs (Decidable (∀ entry ∈ s.config.routes_config,
    (observed fullStatus entry).2.Turns → entry.2.subnets ≠ none))

/-- The switcher drains the queue message by message. -/
theorem Fifo.drained_reached (s : Fifo) :
    Relation.ReflTransGen (fun before after => Fifo.step before .switcher = some after) s s.drained := by
  obtain ⟨config, queue, subnets, unsettled, completed⟩ := s
  induction queue generalizing subnets with
  | nil => exact .refl
  | cons message queue ih => exact .head rfl (ih (switch subnets message))

/-- What the checker never changes of a destination. -/
def fixed (entry : String × Destination) : String × RouteTables × Option (List String) :=
  (entry.1, entry.2.route_table, entry.2.subnets)

/-- What a drained tick is to achieve: the destinations stay the same, `active` is
`primary` exactly for the routers reported `HEALTHY`, the messages were those for
the subnets of the flipped destinations, and with a healthy router every subnet is
on the primary table of one. -/
structure Available (start s : Fifo) (fullStatus : List TargetState) : Prop where
  destinations : ((s.round fullStatus).config.routes_config.map fixed).Perm (start.config.routes_config.map fixed)
  active : ∀ entry ∈ (s.round fullStatus).config.routes_config,
    entry.2.active = .primary ↔ reported fullStatus entry.1 = some .HEALTHY
  messages : ∀ message, message ∈ (handler s.config (.succeeding fullStatus)).sent ↔ ∃ old ∈ s.config.routes_config,
    ∃ new ∈ (s.round fullStatus).config.routes_config, new.1 = old.1 ∧ new.2.active ≠ old.2.active ∧
      old.2.Owns message.subnet_id ∧ message.route_table_id = new.2.table
  attached : (∃ entry ∈ start.config.routes_config, reported fullStatus entry.1 = some .HEALTHY) →
    ∀ entry ∈ start.config.routes_config, ∀ subnet_id, entry.2.Owns subnet_id →
      ∃ up ∈ start.config.routes_config, reported fullStatus up.1 = some .HEALTHY ∧
        (s.round fullStatus).subnets subnet_id = up.2.route_table.primary

theorem Destination.turned_route_table (value : Destination) : value.turned.route_table = value.route_table := by
  unfold Destination.turned
  split <;> rfl

theorem fixed_checked (fullStatus : List TargetState) (entry : String × Destination) :
    fixed (checked fullStatus entry) = fixed entry := by
  rw [fixed, checked_subnets, checked, Destination.turned_route_table]
  rfl

theorem map_fixed_checked (config : Config) (fullStatus : List TargetState) :
    ((dump (config.checked fullStatus)).routes_config.map fixed).Perm (config.routes_config.map fixed) := by
  refine ((List.perm_insertionSort _ _).map fixed).trans (.of_eq ?_)
  rw [Config.checked, List.map_map]
  exact List.map_congr_left fun entry _ => fixed_checked fullStatus entry

/-- After a pass `active` is `primary` exactly for a healthy router. -/
theorem Destination.turned_active {value : Destination} {status : TargetStatus} (h : value.status = some status) :
    value.turned.active = .primary ↔ status = .HEALTHY := by
  obtain ⟨active, _, _, _⟩ := value
  cases h
  by_cases hhealthy : status = .HEALTHY <;> cases active <;>
    simp [Destination.turned, Destination.Turns, Active.other, hhealthy]

theorem Destination.turns_iff {value : Destination} : value.Turns ↔ value.turned.active ≠ value.active := by
  unfold Destination.turned
  split
  · next hturns =>
    apply iff_of_true hturns
    cases value.active <;> simp [Active.other]
  · next hturns => simp [hturns]

theorem observed_status {config : Config} {fullStatus : List TargetState} (h : config.Listed fullStatus)
    {entry : String × Destination} (hentry : entry ∈ config.routes_config) :
    ∃ status, reported fullStatus entry.1 = some status ∧ (observed fullStatus entry).2.status = some status := by
  obtain ⟨real, _, _, hlast⟩ :=
    journal.exists_last (fun real : TargetState => some real.status) (h.listed entry hentry)
  exact ⟨real.status, hlast none, hlast entry.2.status⟩

section crossing

variable {config : Config} {first second : String × Destination} {fullStatus : List TargetState}

theorem Crossing.mem_iff (h : Crossing config first second) {entry : String × Destination} :
    entry ∈ config.routes_config ↔ entry = first ∨ entry = second := by
  rw [h.entries.mem_iff, List.mem_cons, List.mem_singleton]

theorem Crossing.crossing_checked (h : Crossing config first second) (fullStatus : List TargetState) :
    Crossing (dump (config.checked fullStatus)) (checked fullStatus first) (checked fullStatus second) where
  entries := (List.perm_insertionSort _ _).trans (h.entries.map (checked fullStatus))
  addresses := h.addresses
  first_secondary := by
    rw [checked, checked, Destination.turned_route_table,
      Destination.turned_route_table]
    exact h.first_secondary
  second_secondary := by
    rw [checked, checked, Destination.turned_route_table,
      Destination.turned_route_table]
    exact h.second_secondary

theorem handler_succeeding (hlisted : config.Listed fullStatus)
    (hsubnets : ∀ entry ∈ config.routes_config, (observed fullStatus entry).2.Turns → entry.2.subnets ≠ none) :
    handler config (.succeeding fullStatus) =
      ⟨config.notices fullStatus, some (dump (config.checked fullStatus))⟩ := by
  have hrun : check_router_statuses config (some fullStatus) =
      (config.notices fullStatus, .ok (config.checked fullStatus)) := by
    refine check_router_statuses_eq hlisted.known (fun entry hentry => ?_) hsubnets
    obtain ⟨status, _, hstatus⟩ := observed_status hlisted hentry
    rw [hstatus]
    exact Option.some_ne_none status
  simp [handler, Calls.succeeding, hrun]

/-- A destination that turns without a list of subnets keeps the checker from storing
anything. -/
theorem stored_of_null (hlisted : config.Listed fullStatus) {entry : String × Destination}
    (hentry : entry ∈ config.routes_config) (hturns : (observed fullStatus entry).2.Turns)
    (hsubnets : entry.2.subnets = none) : (handler config (.succeeding fullStatus)).stored = none := by
  obtain ⟨e, he⟩ := check_router_statuses_null hlisted.known hentry hturns hsubnets
  cases hrun : check_router_statuses config (some fullStatus) with
  | mk messages result =>
    rw [hrun] at he
    cases he
    simp [handler, Calls.succeeding, hrun]

/-- After a tick `active` is `primary` exactly for the routers reported
`HEALTHY`. -/
theorem active_checked (hlisted : config.Listed fullStatus) {entry : String × Destination}
    (hentry : entry ∈ config.routes_config) :
    (checked fullStatus entry).2.active = .primary ↔ reported fullStatus entry.1 = some .HEALTHY := by
  obtain ⟨status, hreported, hobserved⟩ := observed_status hlisted hentry
  rw [hreported, Option.some.injEq]
  exact Destination.turned_active hobserved

/-- The messages of a tick are those for the subnets of the destinations whose
`active` value it flips. -/
theorem Crossing.mem_notices_iff (h : Crossing config first second) {message : Message} :
    message ∈ config.notices fullStatus ↔ ∃ old ∈ config.routes_config,
      ∃ new ∈ (dump (config.checked fullStatus)).routes_config, new.1 = old.1 ∧ new.2.active ≠ old.2.active ∧
        old.2.Owns message.subnet_id ∧ message.route_table_id = new.2.table := by
  rw [mem_notices]
  refine exists_congr fun old => and_congr_right fun hold => ?_
  constructor
  · rintro ⟨hturns, hown, htable⟩
    refine ⟨checked fullStatus old, mem_dump.mpr (List.mem_map_of_mem hold), rfl, ?_, hown, htable⟩
    exact Destination.turns_iff.mp hturns
  · rintro ⟨new, hnew, haddress, hactive, hown, htable⟩
    obtain ⟨entry, hentry, rfl⟩ := List.mem_map.mp (mem_dump.mp hnew)
    obtain rfl : entry = old := by
      have haddress : entry.1 = old.1 := haddress
      rcases h.mem_iff.mp hentry with rfl | rfl <;> rcases h.mem_iff.mp hold with rfl | rfl
      · rfl
      · exact absurd haddress h.addresses
      · exact absurd haddress.symm h.addresses
      · rfl
    exact ⟨Destination.turns_iff.mpr hactive, hown, htable⟩

/-- When the two primary tables are one, all tables of the destinations are. -/
theorem Crossing.table_eq (h : Crossing config first second)
    (hsame : first.2.route_table.primary = second.2.route_table.primary) {entry : String × Destination}
    (hentry : entry ∈ config.routes_config) : entry.2.table = first.2.route_table.primary := by
  have htable (active : Active) : entry.2.route_table.get active = first.2.route_table.primary := by
    obtain rfl | rfl := h.mem_iff.mp hentry <;> cases active
    · rfl
    · exact h.first_secondary.trans hsame.symm
    · exact hsame.symm
    · exact h.second_secondary
  exact htable entry.2.active

/-- A tick keeps the subnets where the stored configuration says. A subnet of
both destinations has one table only. -/
theorem Crossing.attaches_checked (h : Crossing config first second) {subnet_id table : String}
    (hshared : first.2.Owns subnet_id → second.2.Owns subnet_id →
      first.2.route_table.primary = second.2.route_table.primary)
    (hattaches : config.Attaches subnet_id table) :
    (dump (config.checked fullStatus)).Attaches subnet_id (told (config.notices fullStatus) subnet_id table) := by
  by_cases hboth : first.2.Owns subnet_id ∧ second.2.Owns subnet_id
  · have hsame := hshared hboth.1 hboth.2
    have hchecked := h.crossing_checked fullStatus
    have hprimary : (checked fullStatus first).2.route_table.primary =
        (checked fullStatus second).2.route_table.primary := by
      rw [checked, checked, Destination.turned_route_table, Destination.turned_route_table]
      exact hsame
    have hbase : table = first.2.route_table.primary :=
      (hattaches first (h.mem_iff.mpr (Or.inl rfl)) hboth.1).symm.trans
        (h.table_eq hsame (h.mem_iff.mpr (Or.inl rfl)))
    have hnew {entry : String × Destination} (hentry : entry ∈ (dump (config.checked fullStatus)).routes_config) :
        entry.2.table = table := by
      rw [hchecked.table_eq hprimary hentry, hbase, checked, Destination.turned_route_table]
      rfl
    intro entry hentry _
    rw [hnew hentry]
    refine (journal.last_eq_self fun message hmessage _ => ?_).symm
    obtain ⟨_, _, new, hmem, _, _, _, htable⟩ := h.mem_notices_iff.mp hmessage
    exact htable.trans (hnew hmem)
  · have hsole : config.Sole subnet_id := by
      intro one hone two htwo hown hown'
      rcases h.mem_iff.mp hone with rfl | rfl <;> rcases h.mem_iff.mp htwo with rfl | rfl
      · rfl
      · exact absurd ⟨hown, hown'⟩ hboth
      · exact absurd ⟨hown', hown⟩ hboth
      · rfl
    exact (hattaches.checked hsole fullStatus).dump

/-- With a healthy router, a subnet that is attached as the stored configuration
says is on the primary table of a healthy router. -/
theorem Crossing.healthy_table (h : Crossing config first second)
    (hactive : ∀ entry ∈ config.routes_config,
      entry.2.active = .primary ↔ reported fullStatus entry.1 = some .HEALTHY)
    (hup : ∃ entry ∈ config.routes_config, reported fullStatus entry.1 = some .HEALTHY)
    {entry : String × Destination} (hentry : entry ∈ config.routes_config) :
    ∃ up ∈ config.routes_config, reported fullStatus up.1 = some .HEALTHY ∧
      entry.2.table = up.2.route_table.primary := by
  cases hcase : entry.2.active with
  | primary =>
    refine ⟨entry, hentry, (hactive entry hentry).mp hcase, ?_⟩
    rw [Destination.table, hcase]
    rfl
  | secondary =>
    have hdown : reported fullStatus entry.1 ≠ some .HEALTHY := by
      intro hhealthy
      rw [(hactive entry hentry).mpr hhealthy] at hcase
      cases hcase
    obtain ⟨up, hmem, hhealthy⟩ := hup
    have hother : up ≠ entry := by
      rintro rfl
      exact hdown hhealthy
    refine ⟨up, hmem, hhealthy, ?_⟩
    rw [Destination.table, hcase]
    rcases h.mem_iff.mp hentry with rfl | rfl <;> rcases h.mem_iff.mp hmem with rfl | rfl
    · exact absurd rfl hother
    · exact h.first_secondary
    · exact h.second_secondary
    · exact absurd rfl hother

end crossing

/-- What holds of the template whenever the queue is drained. -/
structure InStep (start s : Fifo) : Prop where
  crossing : ∃ first second, Crossing s.config first second ∧ ∀ subnet_id,
    first.2.Owns subnet_id → second.2.Owns subnet_id → first.2.route_table.primary = second.2.route_table.primary
  queue : s.queue = []
  attaches : ∀ subnet_id, s.config.Attaches subnet_id (s.subnets subnet_id)
  destinations : (s.config.routes_config.map fixed).Perm (start.config.routes_config.map fixed)

/-- Draining the queue brings a subnet to where it is going. -/
theorem Fifo.subnets_drained (s : Fifo) (subnet_id : String) : s.drained.subnets subnet_id = s.destined subnet_id := by
  have hkeeps : invariant.Keeps (fun before after => Fifo.step before .switcher = some after)
      fun after => after.destined subnet_id = s.destined subnet_id := by
    intro before after hdestined hstep
    rw [Fifo.destined_switcher hstep subnet_id, hdestined]
  exact hkeeps.run s.drained_reached rfl

section round

variable {start s : Fifo} {fullStatus : List TargetState}

/-- A round in closed form. -/
theorem Fifo.round_eq (hlisted : s.config.Listed fullStatus) (hturnable : Turnable s fullStatus)
    (hqueue : s.queue = []) : (s.round fullStatus).config = dump (s.config.checked fullStatus) ∧
      ∀ subnet_id, (s.round fullStatus).subnets subnet_id =
        told (s.config.notices fullStatus) subnet_id (s.subnets subnet_id) := by
  have hhandler := handler_succeeding hlisted hturnable
  have hafter : s.after (.checker (.succeeding fullStatus)) = { s with
      config := dump (s.config.checked fullStatus)
      queue := s.config.notices fullStatus
      unsettled := []
      completed := true } := by
    simp [Fifo.after, Fifo.step, hhandler, hqueue]
  refine ⟨by rw [Fifo.round, hafter, Fifo.drained], fun subnet_id => ?_⟩
  rw [Fifo.round, Fifo.subnets_drained, hafter, Fifo.destined]

theorem Fifo.round_of_null {entry : String × Destination} (hlisted : s.config.Listed fullStatus)
    (hentry : entry ∈ s.config.routes_config) (hturns : (observed fullStatus entry).2.Turns)
    (hsubnets : entry.2.subnets = none) : (s.round fullStatus).config = s.config := by
  simp [Fifo.round, Fifo.drained, Fifo.after, Fifo.step, stored_of_null hlisted hentry hturns hsubnets]

/-- The addresses of the destinations stay those at the start. -/
theorem InStep.listed (h : InStep start s) (hlisted : start.config.Listed fullStatus) :
    s.config.Listed fullStatus := by
  have hperm := h.destinations.map Prod.fst
  rw [List.map_map, List.map_map] at hperm
  refine ⟨fun real hreal => ?_, fun entry hentry => ?_⟩
  · obtain ⟨entry, hentry, haddress⟩ := hlisted.known real hreal
    have hmem := hperm.symm.subset (List.mem_map_of_mem (f := Prod.fst ∘ fixed) hentry)
    obtain ⟨later, hlater, hsame⟩ := List.mem_map.mp hmem
    exact ⟨later, hlater, hsame.trans haddress⟩
  · have hmem := hperm.subset (List.mem_map_of_mem (f := Prod.fst ∘ fixed) hentry)
    obtain ⟨old, hold, hsame⟩ := List.mem_map.mp hmem
    obtain ⟨real, hreal, haddress⟩ := hlisted.listed old hold
    exact ⟨real, hreal, haddress.trans hsame⟩

theorem InStep.round (h : InStep start s) (hlisted : start.config.Listed fullStatus)
    (hturnable : Turnable s fullStatus) : InStep start (s.round fullStatus) := by
  obtain ⟨first, second, hcrossing, hshared⟩ := h.crossing
  obtain ⟨hconfig, hsubnets⟩ := Fifo.round_eq (h.listed hlisted) hturnable h.queue
  refine ⟨⟨checked fullStatus first, checked fullStatus second, ?_, ?_⟩, rfl, ?_, ?_⟩
  · rw [hconfig]
    exact hcrossing.crossing_checked fullStatus
  · intro subnet_id hfirst hsecond
    rw [Destination.Owns, checked_subnets] at hfirst hsecond
    rw [checked, checked, Destination.turned_route_table, Destination.turned_route_table]
    exact hshared subnet_id hfirst hsecond
  · intro subnet_id
    rw [hconfig, hsubnets]
    exact hcrossing.attaches_checked (hshared subnet_id) (h.attaches subnet_id)
  · rw [hconfig]
    exact (map_fixed_checked s.config fullStatus).trans h.destinations

theorem InStep.mem_start (h : InStep start s) {entry : String × Destination}
    (hentry : entry ∈ start.config.routes_config) : ∃ later ∈ s.config.routes_config, fixed later = fixed entry :=
  List.mem_map.mp (h.destinations.mem_iff.mpr (List.mem_map_of_mem hentry))

theorem InStep.mem_now (h : InStep start s) {later : String × Destination}
    (hlater : later ∈ s.config.routes_config) : ∃ entry ∈ start.config.routes_config, fixed entry = fixed later :=
  List.mem_map.mp (h.destinations.mem_iff.mp (List.mem_map_of_mem hlater))

end round

/-- The template at the start, with every subnet on its primary table. -/
theorem Crossing.inStep_start {start : Fifo} {first second : String × Destination}
    (h : Crossing start.config first second) (hfirst : first.2.active = .primary)
    (hsecond : second.2.active = .primary) (hqueue : start.queue = [])
    (hsubnets : ∀ entry ∈ start.config.routes_config, ∀ subnet_id, entry.2.Owns subnet_id →
      start.subnets subnet_id = entry.2.route_table.primary) : InStep start start where
  crossing := by
    refine ⟨first, second, h, fun subnet_id hown hown' => ?_⟩
    rw [← hsubnets first (h.mem_iff.mpr (Or.inl rfl)) subnet_id hown,
      hsubnets second (h.mem_iff.mpr (Or.inr rfl)) subnet_id hown']
  queue := hqueue
  attaches := by
    intro subnet_id entry hentry hown
    rw [hsubnets entry hentry subnet_id hown]
    obtain rfl | rfl := h.mem_iff.mp hentry
    · rw [Destination.table, hfirst]
      rfl
    · rw [Destination.table, hsecond]
      rfl
  destinations := .refl _

/-- With a healthy router, every subnet is on the primary table of one. -/
theorem InStep.available {start after : Fifo} {fullStatus : List TargetState} (h : InStep start after)
    (hactive : ∀ entry ∈ after.config.routes_config,
      entry.2.active = .primary ↔ reported fullStatus entry.1 = some .HEALTHY)
    (hup : ∃ entry ∈ start.config.routes_config, reported fullStatus entry.1 = some .HEALTHY)
    {entry : String × Destination} (hentry : entry ∈ start.config.routes_config) {subnet_id : String}
    (hown : entry.2.Owns subnet_id) :
    ∃ up ∈ start.config.routes_config, reported fullStatus up.1 = some .HEALTHY ∧
      after.subnets subnet_id = up.2.route_table.primary := by
  obtain ⟨up, hmem, hhealthy⟩ := hup
  obtain ⟨_, _, hcrossing, _⟩ := h.crossing
  obtain ⟨later, hlater, hfixed⟩ := h.mem_start hentry
  obtain ⟨laterUp, hlaterUp, hfixedUp⟩ := h.mem_start hmem
  simp only [fixed, Prod.mk.injEq] at hfixed hfixedUp
  have hupNow : ∃ entry ∈ after.config.routes_config, reported fullStatus entry.1 = some .HEALTHY :=
    ⟨laterUp, hlaterUp, by rw [hfixedUp.1]; exact hhealthy⟩
  obtain ⟨table, htable, htableHealthy, hsame⟩ := hcrossing.healthy_table hactive hupNow hlater
  obtain ⟨router, hrouter, hfixedRouter⟩ := h.mem_now htable
  simp only [fixed, Prod.mk.injEq] at hfixedRouter
  have hownLater : later.2.Owns subnet_id := by
    rw [Destination.Owns, hfixed.2.2]
    exact hown
  refine ⟨router, hrouter, by rw [hfixedRouter.1]; exact htableHealthy, ?_⟩
  rw [← h.attaches subnet_id later hlater hownLater, hsame, hfixedRouter.2.1]

/-- A drained tick achieves what it is to exactly if every destination that it turns has
a list of subnets: otherwise the checker raises and stores nothing. -/
theorem InStep.available_iff {start s : Fifo} {fullStatus : List TargetState} (h : InStep start s)
    (hlisted : start.config.Listed fullStatus) : Available start s fullStatus ↔ Turnable s fullStatus := by
  have hnow := h.listed hlisted
  constructor
  · intro havailable entry hentry hturns hsubnets
    have hconfig := Fifo.round_of_null hnow hentry hturns hsubnets
    have hactive := havailable.active entry (hconfig ▸ hentry)
    obtain ⟨status, hreported, hobserved⟩ := observed_status hnow hentry
    obtain ⟨same, hsame, hcases⟩ := hturns
    rw [hobserved] at hsame
    cases hsame
    rw [hreported, Option.some.injEq] at hactive
    obtain ⟨hdown, hprimary⟩ | ⟨hup, hsecondary⟩ := hcases
    · exact hdown (hactive.mp hprimary)
    · have hprimary := hactive.mpr hup
      rw [show entry.2.active = _ from hsecondary] at hprimary
      cases hprimary
  · intro hturnable
    have hafter := h.round hlisted hturnable
    obtain ⟨hconfig, _⟩ := Fifo.round_eq hnow hturnable h.queue
    obtain ⟨one, two, hcrossing, _⟩ := h.crossing
    have hactive : ∀ entry ∈ (s.round fullStatus).config.routes_config,
        entry.2.active = .primary ↔ reported fullStatus entry.1 = some .HEALTHY := by
      intro entry hentry
      rw [hconfig] at hentry
      obtain ⟨old, hold, rfl⟩ := List.mem_map.mp (mem_dump.mp hentry)
      exact active_checked hnow hold
    refine ⟨hafter.destinations, hactive, fun message => ?_, fun hup entry hentry subnet_id hown => ?_⟩
    · rw [handler_succeeding hnow hturnable, hconfig]
      exact hcrossing.mem_notices_iff
    · exact hafter.available hactive hup hentry hown

/-- Two routers of the shape of the template: every drained tick of a run achieves what it
is to, exactly if no tick turns a destination whose subnets are null. -/
theorem two_routers_available_iff {start : Fifo} {first second : String × Destination}
    (hcrossing : Crossing start.config first second) (hfirst : first.2.active = .primary)
    (hsecond : second.2.active = .primary) (hqueue : start.queue = [])
    (hsubnets : ∀ entry ∈ start.config.routes_config, ∀ subnet_id, entry.2.Owns subnet_id →
      start.subnets subnet_id = entry.2.route_table.primary)
    {reports : List (List TargetState)} (hreports : ∀ fullStatus ∈ reports, start.config.Listed fullStatus) :
    invariant.Along Fifo.round (Available start) start reports ↔ invariant.Along Fifo.round Turnable start reports := by
  have hlisted : invariant.Along Fifo.round (fun _ fullStatus => start.config.Listed fullStatus) start reports :=
    .of_forall_mem hreports start
  have hstart : InStep start start := hcrossing.inStep_start hfirst hsecond hqueue hsubnets
  have hkeeps (s : Fifo) (fullStatus : List TargetState) (hs : InStep start s)
      (hboth : start.config.Listed fullStatus ∧ Turnable s fullStatus) : InStep start (s.round fullStatus) :=
    hs.round hboth.1 hboth.2
  constructor
  · intro h
    suffices hall : ∀ s, InStep start s → ∀ reports, (∀ fullStatus ∈ reports, start.config.Listed fullStatus) →
        invariant.Along Fifo.round (Available start) s reports → invariant.Along Fifo.round Turnable s reports from
      hall start hstart reports hreports h
    intro s hs reports hreports h
    induction reports generalizing s with
    | nil => trivial
    | cons fullStatus reports ih =>
      obtain ⟨hhead, htail⟩ := List.forall_mem_cons.mp hreports
      have hturnable := (hs.available_iff hhead).mp h.1
      exact ⟨hturnable, ih _ (hkeeps s fullStatus hs ⟨hhead, hturnable⟩) htail h.2⟩
  · intro h
    refine ((hlisted.and h).keeps hkeeps hstart).2.mono ?_
    rintro s fullStatus ⟨hs, hhead, hturnable⟩
    exact (hs.available_iff hhead).mpr hturnable

/-- The configuration of the template with no subnet in the second zone. -/
def template_fifo_null : Fifo :=
  { template_fifo with
    config := { template_fifo.config with
      routes_config :=
        [("192.168.1.10", ⟨.primary, ⟨"enp-rt-a", "enp-rt-b"⟩, some ["e9b-subnet-a"], none⟩),
          ("192.168.2.10", ⟨.primary, ⟨"enp-rt-b", "enp-rt-a"⟩, none, none⟩)] } }

/-- Both routers fail and the first is back at the next tick. -/
theorem two_routers_available_template :
    Available template_fifo (template_fifo.round (template_report .UNHEALTHY .UNHEALTHY))
      (template_report .HEALTHY .UNHEALTHY) := by
  let first : String × Destination :=
    ("192.168.1.10", ⟨.primary, ⟨"enp-rt-a", "enp-rt-b"⟩, some ["e9b-subnet-a"], none⟩)
  let second : String × Destination :=
    ("192.168.2.10", ⟨.primary, ⟨"enp-rt-b", "enp-rt-a"⟩, some ["e2l-subnet-b"], none⟩)
  have hcrossing : Crossing template_fifo.config first second := ⟨.refl _, by decide, rfl, rfl⟩
  have hreports : ∀ fullStatus ∈ [template_report .UNHEALTHY .UNHEALTHY, template_report .HEALTHY .UNHEALTHY],
      template_fifo.config.Listed fullStatus := by
    intro fullStatus hmem
    obtain rfl | hmem := List.mem_cons.mp hmem
    · exact ⟨by decide, by decide⟩
    · rw [List.mem_singleton.mp hmem]
      exact ⟨by decide, by decide⟩
  refine ((two_routers_available_iff hcrossing rfl rfl rfl ?_ hreports).mpr (by decide)).2.1
  exact fun entry hentry subnet_id hown => (template_config_attaches subnet_id entry hentry hown).symm.trans
    (by rcases template_owner hentry hown with ⟨rfl, rfl⟩ | ⟨rfl, rfl⟩ <;> rfl)

/-- Without subnets in the second zone, a failure of both routers raises after the message
for the first one: nothing is stored, and `active` stays `primary` for routers that are
down. -/
theorem null_subnets_not_available : ¬ ∀ start first second fullStatus, Crossing start.config first second →
    first.2.active = .primary → second.2.active = .primary → start.queue = [] →
      (∀ entry ∈ start.config.routes_config, ∀ subnet_id, entry.2.Owns subnet_id →
        start.subnets subnet_id = entry.2.route_table.primary) →
        start.config.Listed fullStatus → Available start start fullStatus := by
  intro h
  have havailable := h template_fifo_null
    ("192.168.1.10", ⟨.primary, ⟨"enp-rt-a", "enp-rt-b"⟩, some ["e9b-subnet-a"], none⟩)
    ("192.168.2.10", ⟨.primary, ⟨"enp-rt-b", "enp-rt-a"⟩, none, none⟩) (template_report .UNHEALTHY .UNHEALTHY)
    ⟨.refl _, by decide, rfl, rfl⟩ rfl rfl rfl ?_ ⟨by decide, by decide⟩
  · have hactive := havailable.active
      ("192.168.1.10", ⟨.primary, ⟨"enp-rt-a", "enp-rt-b"⟩, some ["e9b-subnet-a"], none⟩) (by decide)
    exact absurd (hactive.mp rfl) (by decide)
  · intro entry hentry subnet_id hown
    obtain rfl | hentry := List.mem_cons.mp hentry
    · rw [List.mem_singleton.mp hown]
      rfl
    · rw [List.mem_singleton.mp hentry] at hown
      cases hown

end solution_library.route_switcher_v1
