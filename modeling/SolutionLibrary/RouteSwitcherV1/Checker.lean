import Mathlib.Data.List.Sort
import SolutionLibrary.Library.Journal
import SolutionLibrary.LoadBalancer

namespace solution_library.route_switcher_v1

inductive Active where
  | primary
  | secondary
  deriving DecidableEq

structure RouteTables where
  primary : String
  secondary : String
  deriving DecidableEq

/-- `route_table[active]`. -/
def RouteTables.get (route_table : RouteTables) : Active → String
  | .primary => route_table.primary
  | .secondary => route_table.secondary

/-- A value of `routes_config`. The key `status` is absent until a report lists
the router. An empty list of subnets may also be stored as null. -/
structure Destination where
  active : Active
  route_table : RouteTables
  subnets : Option (List String)
  status : Option TargetStatus
  deriving DecidableEq

def Destination.table (value : Destination) : String :=
  value.route_table.get value.active

/-- The YAML configuration in the bucket. The order of `routes_config` is that of
the document. -/
structure Config where
  loadBalancerId : String
  targetGroupId : String
  routes_config : List (String × Destination)
  deriving DecidableEq

/-- Body of a message to the switcher. -/
structure Message where
  subnet_id : String
  route_table_id : String
  deriving DecidableEq

/-- Python exceptions that end the invocation. -/
inductive Exn where
  | keyError (key : String)
  | notIterable
  deriving DecidableEq

/-- Messages of a fail-over. Iterating over a null list raises. -/
def failover (route_table_id : String) (subnet_list : Option (List String)) : Except Exn (List Message) :=
  match subnet_list with
  | some subnet_list => .ok (subnet_list.map fun subnet_id => { subnet_id, route_table_id })
  | none => .error .notIterable

/-- `config['routes_config'][real['address']]['status'] = real['status']`. -/
def set_status (routes_config : List (String × Destination)) (real : TargetState) :
    Except Exn (List (String × Destination)) :=
  if ∃ entry ∈ routes_config, entry.1 = real.address then
    .ok (routes_config.map fun entry =>
      if entry.1 = real.address then (entry.1, { entry.2 with status := some real.status }) else entry)
  else .error (.keyError real.address)

/-- One pass of the loop over `routes_config`. -/
def check_destination (value : Destination) : Except Exn (Destination × List Message) :=
  match value.status with
  | none => .error (.keyError "status")
  | some status =>
    if status ≠ .HEALTHY ∧ value.active = .primary then do
      let messages ← failover value.route_table.secondary value.subnets
      .ok ({ value with active := .secondary }, messages)
    else if status = .HEALTHY ∧ value.active = .secondary then do
      let messages ← failover value.route_table.primary value.subnets
      .ok ({ value with active := .primary }, messages)
    else .ok (value, [])

/-- The loop over `routes_config`, with the messages sent up to its end or the
exception. -/
def check_destinations :
    List (String × Destination) → List Message × Except Exn (List (String × Destination))
  | [] => ([], .ok [])
  | (destination, value) :: routes_config =>
    match check_destination value with
    | .error e => ([], .error e)
    | .ok (value, messages) =>
      let (sent, checked) := check_destinations routes_config
      (messages ++ sent, checked.map fun routes_config => (destination, value) :: routes_config)

/-- `targetStates` is `none` when the request fails or the answer has no such
key. -/
def check_router_statuses (config : Config) (targetStates : Option (List TargetState)) :
    List Message × Except Exn Config :=
  match targetStates with
  | none => ([], .error (.keyError "targetStates"))
  | some fullStatus =>
    match fullStatus.foldlM set_status config.routes_config with
    | .error e => ([], .error e)
    | .ok routes_config =>
      let (sent, checked) := check_destinations routes_config
      (sent, checked.map fun routes_config => { config with routes_config })

/-- `yaml.dump` sorts the keys. -/
def dump (config : Config) : Config :=
  { config with
    routes_config := config.routes_config.insertionSort fun first second => first.1 ≤ second.1 }

/-- Outcomes of the calls of one invocation. `send_message` is the number of
messages before the first send that fails, if one fails. -/
structure Calls where
  get_config : Bool
  targetStates : Option (List TargetState)
  send_message : Option ℕ
  put_config : Bool

/-- Effects of one invocation: the messages sent, and the configuration stored
when the invocation completes. -/
structure Outcome where
  sent : List Message
  stored : Option Config
  deriving DecidableEq

def handler (config : Config) (calls : Calls) : Outcome :=
  if calls.get_config then
    let (messages, checked) := check_router_statuses config calls.targetStates
    let sent := calls.send_message.elim messages messages.take
    { sent
      stored := match checked with
        | .ok config => if sent = messages ∧ calls.put_config then some (dump config) else none
        | .error _ => none }
  else { sent := [], stored := none }

def Active.other : Active → Active
  | .primary => .secondary
  | .secondary => .primary

/-- The status calls for the other route table. -/
def Destination.Turns (value : Destination) : Prop :=
  ∃ status, value.status = some status ∧
    (status ≠ .HEALTHY ∧ value.active = .primary ∨ status = .HEALTHY ∧ value.active = .secondary)

instance (value : Destination) : Decidable value.Turns :=
  match hstatus : value.status with
  | none => isFalse fun ⟨_, h, _⟩ => by rw [hstatus] at h; cases h
  | some status => decidable_of_iff
      (status ≠ .HEALTHY ∧ value.active = .primary ∨ status = .HEALTHY ∧ value.active = .secondary)
      (by simp [Destination.Turns, hstatus])

def Destination.turned (value : Destination) : Destination :=
  if value.Turns then { value with active := value.active.other } else value

/-- The messages that a pass over the destination sends. -/
def Destination.notices (value : Destination) : List Message :=
  if value.Turns then
    (value.subnets.getD []).map fun subnet_id => { subnet_id, route_table_id := value.turned.table }
  else []

/-- A destination with the status that the report has last for it. -/
def observed (fullStatus : List TargetState) (entry : String × Destination) : String × Destination :=
  (entry.1, { entry.2 with
    status := journal.last TargetState.address (fun real => some real.status) fullStatus entry.1 entry.2.status })

/-- The destinations after a completed pass. -/
def checked (fullStatus : List TargetState) (entry : String × Destination) : String × Destination :=
  (entry.1, (observed fullStatus entry).2.turned)

@[simp] theorem Destination.turned_subnets (value : Destination) : value.turned.subnets = value.subnets := by
  unfold Destination.turned
  split <;> rfl

@[simp] theorem observed_subnets (fullStatus : List TargetState) (entry : String × Destination) :
    (observed fullStatus entry).2.subnets = entry.2.subnets := rfl

@[simp] theorem observed_table (fullStatus : List TargetState) (entry : String × Destination) :
    (observed fullStatus entry).2.table = entry.2.table := rfl

@[simp] theorem checked_subnets (fullStatus : List TargetState) (entry : String × Destination) :
    (checked fullStatus entry).2.subnets = entry.2.subnets := by
  simp [checked]

theorem Destination.turned_of_not {value : Destination} (h : ¬ value.Turns) : value.turned = value :=
  if_neg h

theorem Destination.notices_of_not {value : Destination} (h : ¬ value.Turns) : value.notices = [] :=
  if_neg h

theorem Destination.mem_notices {value : Destination} {message : Message} :
    message ∈ value.notices ↔
      value.Turns ∧ message.subnet_id ∈ value.subnets.getD [] ∧ message.route_table_id = value.turned.table := by
  unfold Destination.notices
  split
  · next hturns =>
    simp only [hturns, List.mem_map, true_and]
    constructor
    · rintro ⟨subnet_id, hmem, rfl⟩
      exact ⟨hmem, rfl⟩
    · rintro ⟨hmem, htable⟩
      exact ⟨message.subnet_id, hmem, by rw [← htable]⟩
  · next hturns => simp [hturns]

/-- One pass in closed form, for a destination with a status, and with a list of
subnets if it turns. -/
theorem check_destination_eq {value : Destination} (hstatus : value.status ≠ none)
    (hsubnets : value.Turns → value.subnets ≠ none) :
    check_destination value = .ok (value.turned, value.notices) := by
  obtain ⟨active, route_table, subnets, _⟩ := value
  obtain ⟨status, hstatus⟩ := Option.ne_none_iff_exists'.mp hstatus
  cases hstatus
  cases subnets with
  | some subnets =>
    by_cases hhealthy : status = .HEALTHY <;> cases active <;>
      simp [check_destination, failover, Destination.turned, Destination.notices, Destination.Turns,
        Destination.table, RouteTables.get, Active.other, hhealthy, bind, Except.bind]
  | none =>
    have hturns : ¬ Destination.Turns ⟨active, route_table, none, some status⟩ := fun hturns => hsubnets hturns rfl
    rw [Destination.turned_of_not hturns, Destination.notices_of_not hturns]
    simp only [Destination.Turns, Option.some.injEq, exists_eq_left', not_or] at hturns
    simp only [check_destination, if_neg hturns.1, if_neg hturns.2]

/-- A destination without a list of subnets raises when it turns. -/
theorem check_destination_null {value : Destination} (hturns : value.Turns) (hsubnets : value.subnets = none) :
    check_destination value = .error .notIterable := by
  obtain ⟨status, hstatus, ⟨hdown, hactive⟩ | ⟨hup, hactive⟩⟩ := hturns
  · simp [check_destination, hstatus, hdown, hactive, hsubnets, failover, bind, Except.bind]
  · simp [check_destination, hstatus, hup, hactive, hsubnets, failover, bind, Except.bind]

/-- A pass that does not raise is in closed form. -/
theorem check_destination_ok {value after : Destination} {messages : List Message}
    (h : check_destination value = .ok (after, messages)) : after = value.turned ∧ messages = value.notices := by
  by_cases hstatus : value.status = none
  · simp [check_destination, hstatus] at h
  · by_cases hnull : value.Turns ∧ value.subnets = none
    · rw [check_destination_null hnull.1 hnull.2] at h
      cases h
    · rw [check_destination_eq hstatus fun hturns hsubnets => hnull ⟨hturns, hsubnets⟩] at h
      cases h
      exact ⟨rfl, rfl⟩

theorem check_destinations_ok {routes_config after : List (String × Destination)} {sent : List Message}
    (h : check_destinations routes_config = (sent, .ok after)) :
    sent = (routes_config.flatMap fun entry => entry.2.notices) ∧
      after = routes_config.map fun entry => (entry.1, entry.2.turned) := by
  induction routes_config generalizing sent after with
  | nil =>
    cases h
    exact ⟨rfl, rfl⟩
  | cons entry routes_config ih =>
    obtain ⟨destination, value⟩ := entry
    rw [check_destinations] at h
    split at h
    · cases h
    · next turned messages hpass =>
      obtain ⟨rfl, rfl⟩ := check_destination_ok hpass
      cases hrest : check_destinations routes_config with
      | mk rest result =>
        rw [hrest] at h
        cases result with
        | error e => cases h
        | ok others =>
          cases h
          obtain ⟨rfl, rfl⟩ := ih hrest
          exact ⟨rfl, rfl⟩

theorem check_destinations_eq {routes_config : List (String × Destination)}
    (h : ∀ entry ∈ routes_config, entry.2.status ≠ none ∧ (entry.2.Turns → entry.2.subnets ≠ none)) :
    check_destinations routes_config = (routes_config.flatMap fun entry => entry.2.notices,
      .ok (routes_config.map fun entry => (entry.1, entry.2.turned))) := by
  induction routes_config with
  | nil => rfl
  | cons entry routes_config ih =>
    obtain ⟨⟨hstatus, hsubnets⟩, hrest⟩ := List.forall_mem_cons.mp h
    rw [check_destinations, check_destination_eq hstatus hsubnets, ih hrest]
    rfl

/-- A destination that turns without a list of subnets ends the loop. -/
theorem check_destinations_null {routes_config : List (String × Destination)} {entry : String × Destination}
    (hentry : entry ∈ routes_config) (hturns : entry.2.Turns) (hsubnets : entry.2.subnets = none) :
    ∃ e, (check_destinations routes_config).2 = .error e := by
  induction routes_config with
  | nil => cases hentry
  | cons head routes_config ih =>
    rw [check_destinations]
    cases hpass : check_destination head.2 with
    | error e => exact ⟨e, rfl⟩
    | ok result =>
      obtain rfl | hrest := List.mem_cons.mp hentry
      · rw [check_destination_null hturns hsubnets] at hpass
        cases hpass
      · obtain ⟨e, he⟩ := ih hrest
        exact ⟨e, by simp [he, Except.map]⟩

/-- Storing the statuses of a report, when it does not raise. -/
theorem set_status_ok {fullStatus : List TargetState} {routes_config after : List (String × Destination)}
    (h : fullStatus.foldlM set_status routes_config = .ok after) :
    after = routes_config.map (observed fullStatus) := by
  induction fullStatus generalizing routes_config with
  | nil =>
    cases h
    exact (List.map_id _).symm
  | cons real fullStatus ih =>
    rw [List.foldlM_cons, set_status] at h
    split at h
    · rw [ih h, List.map_map]
      refine List.map_congr_left fun entry _ => ?_
      by_cases hentry : entry.1 = real.address
      · simp [observed, journal.last, hentry]
      · simp [observed, journal.last, hentry, Ne.symm hentry]
    · cases h

theorem set_status_eq {fullStatus : List TargetState} {routes_config : List (String × Destination)}
    (h : ∀ real ∈ fullStatus, ∃ entry ∈ routes_config, entry.1 = real.address) :
    fullStatus.foldlM set_status routes_config = .ok (routes_config.map (observed fullStatus)) := by
  have hok : ∃ after, fullStatus.foldlM set_status routes_config = .ok after := by
    induction fullStatus generalizing routes_config with
    | nil => exact ⟨routes_config, rfl⟩
    | cons real fullStatus ih =>
      obtain ⟨hhead, htail⟩ := List.forall_mem_cons.mp h
      rw [List.foldlM_cons, set_status, if_pos hhead]
      refine ih fun other hother => ?_
      obtain ⟨entry, hentry, haddress⟩ := htail other hother
      refine ⟨_, List.mem_map_of_mem hentry, ?_⟩
      split <;> exact haddress
  obtain ⟨after, hafter⟩ := hok
  rw [hafter, set_status_ok hafter]

/-- A run of the checker that does not raise. -/
theorem check_router_statuses_ok {config after : Config} {targetStates : Option (List TargetState)}
    {sent : List Message} (h : check_router_statuses config targetStates = (sent, .ok after)) :
    ∃ fullStatus, targetStates = some fullStatus ∧
      sent = (config.routes_config.flatMap fun entry => (observed fullStatus entry).2.notices) ∧
      after = { config with routes_config := config.routes_config.map (checked fullStatus) } := by
  cases targetStates with
  | none => cases h
  | some fullStatus =>
    rw [check_router_statuses] at h
    split at h
    · cases h
    · next routes_config hstatuses =>
      obtain rfl := set_status_ok hstatuses
      cases hrest : check_destinations (config.routes_config.map (observed fullStatus)) with
      | mk rest result =>
        rw [hrest] at h
        cases result with
        | error e => cases h
        | ok others =>
          cases h
          obtain ⟨rfl, rfl⟩ := check_destinations_ok hrest
          refine ⟨fullStatus, rfl, by rw [List.flatMap_map], ?_⟩
          rw [List.map_map]
          rfl

theorem check_router_statuses_eq {config : Config} {fullStatus : List TargetState}
    (hlisted : ∀ real ∈ fullStatus, ∃ entry ∈ config.routes_config, entry.1 = real.address)
    (hstatus : ∀ entry ∈ config.routes_config, (observed fullStatus entry).2.status ≠ none)
    (hsubnets : ∀ entry ∈ config.routes_config, (observed fullStatus entry).2.Turns → entry.2.subnets ≠ none) :
    check_router_statuses config (some fullStatus) =
      (config.routes_config.flatMap fun entry => (observed fullStatus entry).2.notices,
        .ok { config with routes_config := config.routes_config.map (checked fullStatus) }) := by
  have hpasses : ∀ entry ∈ config.routes_config.map (observed fullStatus),
      entry.2.status ≠ none ∧ (entry.2.Turns → entry.2.subnets ≠ none) := by
    intro observed hmem
    obtain ⟨entry, hentry, rfl⟩ := List.mem_map.mp hmem
    exact ⟨hstatus entry hentry, hsubnets entry hentry⟩
  rw [check_router_statuses, set_status_eq hlisted]
  simp only [check_destinations_eq hpasses, List.flatMap_map, Except.map, List.map_map]
  rfl

/-- A destination that turns without a list of subnets ends the run. -/
theorem check_router_statuses_null {config : Config} {fullStatus : List TargetState}
    (hlisted : ∀ real ∈ fullStatus, ∃ entry ∈ config.routes_config, entry.1 = real.address)
    {entry : String × Destination} (hentry : entry ∈ config.routes_config)
    (hturns : (observed fullStatus entry).2.Turns) (hsubnets : entry.2.subnets = none) :
    ∃ e, (check_router_statuses config (some fullStatus)).2 = .error e := by
  obtain ⟨e, he⟩ := check_destinations_null (List.mem_map_of_mem (f := observed fullStatus) hentry) hturns hsubnets
  rw [check_router_statuses, set_status_eq hlisted]
  exact ⟨e, by simp [he, Except.map]⟩

end solution_library.route_switcher_v1
